/-
# The cached size of a message

The encoders take for the size of a protobuf message what `GetCachedSize` returns, and call
`ByteSizeLong` only where that is 0.

Here the encoders work on memory, with copies that fail where they would leave a buffer.
-/

import Corpc.Basis.Run
import Corpc.Message.InPlace
import Corpc.Pipeline.RoundTrip

namespace Corpc.Pipeline

open Corpc.Basis Wire Message Rpc List Option

variable {μ : Type}

/-- What an encoder leaves: the buffer and how much of it is to be sent, and the spill and how
much of it is in the buffer. -/
structure Output where
  buf : List UInt8
  size : ℕ
  downflowBuf : List UInt8
  downflowBufSentNum : ℕ
  deriving DecidableEq, Repr

def Output.frame (out : Output) : List UInt8 :=
  out.buf.take out.size ++ out.downflowBuf.drop out.downflowBufSentNum

section Writing

variable (headSize : ℕ) (head crypt : List UInt8 → List UInt8) (msg : ProtoMessage)
  (buf : List UInt8)

/-- The body fits behind the head.  `SerializeWithCachedSizesToArray` writes the whole value. -/
def writeBehind : Option Output :=
  (if 0 < msg.msgSize then memcpy buf headSize msg.bytes else some buf).bind fun buf =>
    let body := crypt ((buf.drop headSize).take msg.msgSize)
    (memcpy buf headSize body).bind fun buf =>
      (memcpy buf 0 (head body)).map fun buf => ⟨buf, headSize + msg.msgSize, [], 0⟩

/-- It does not: `downflowBuf.assign(msgSize, 0)` takes the body, and the buffer its first part. -/
def writeAside : Option Output :=
  (memcpy (List.replicate msg.msgSize 0) 0 msg.bytes).bind fun dbuf =>
    let dbuf := crypt dbuf
    let spaceleft := buf.length - headSize
    (memcpy buf headSize (dbuf.take spaceleft)).bind fun buf =>
      (memcpy buf 0 (head dbuf)).map fun buf => ⟨buf, buf.length, dbuf, spaceleft⟩

/-- The part the encoders share, behind the test for the space of a head.  `head` makes the head
from the body as it stands in memory, and `crypt` is the encryption in place.  `none` is a write
behind the end of `buf` or of `downflowBuf_`. -/
def writeMessage : Option Output :=
  if msg.msgSize ≤ buf.length - headSize then writeBehind headSize head crypt msg buf
  else writeAside headSize head crypt msg buf

end Writing

/-- `MessageTerminal::encode`; `none` is also its `return false` for a missing crypter. -/
def MessageTerminal.encodeTo (conn : Connection μ) (type : Int32) (needCrypt : Bool) (tag : UInt16)
    (serial : UInt32) (msg : ProtoMessage) (buf : List UInt8) : Option Output :=
  if needCrypt = true ∧ conn.crypter.isNone then none
  else
    writeMessage messageHeadSize
      (fun body => encodeHead msg.msgSize type tag (if needCrypt then messageFlagCrypt else 0)
        conn.recvSerial serial (if conn.terminal.enableSendCRC then checkSum body 0xFFFF else 0))
      (conn.encrypt needCrypt) msg buf

/-- `RpcClient::encode` behind its assertion. -/
def RpcClient.encodeTo (task : RequestTask) (buf : List UInt8) : Option Output :=
  writeMessage requestHeadSize (fun _ => requestHead task) id task.request buf

/-- `RpcServer::encode`.  The text of an error is copied with its own size. -/
def RpcServer.encodeTo (task : ResponseTask) (buf : List UInt8) : Option Output :=
  writeMessage responseHeadSize (fun _ => responseHead task) id
    (if task.controller.failed then ⟨task.controller.errorStr, 0⟩ else task.response) buf

theorem memcpy_append (pre : List UInt8) {mid src : List UInt8} (post : List UInt8)
    (h : mid.length = src.length) :
    memcpy (pre ++ (mid ++ post)) pre.length src = some (pre ++ (src ++ post)) := by
  have hfit : pre.length + src.length ≤ (pre ++ (mid ++ post)).length := by
    simp only [length_append]
    omega
  have hdrop : (pre ++ (mid ++ post)).drop (pre.length + src.length) = post := by
    rw [← append_assoc, ← h, ← length_append, drop_left]
  rw [memcpy, if_pos hfit, take_left, hdrop, append_assoc]

theorem eq_of_memcpy_zero {dst src dst' : List UInt8} (h : memcpy dst 0 src = some dst') :
    dst' = src ++ dst.drop src.length := by
  unfold memcpy at h
  split_ifs at h
  simpa using (some.inj h).symm

section Written

variable {headSize : ℕ} {head crypt : List UInt8 → List UInt8} {msg : ProtoMessage}
  {buf : List UInt8}

theorem head_of_writeMessage (hhead : ∀ body, (head body).length = headSize) {out : Output}
    (h : writeMessage headSize head crypt msg buf = some out) :
    ∃ body rest, out.frame = head body ++ rest := by
  unfold writeMessage at h
  split_ifs at h with hfit
  · obtain ⟨buf₁, -, h⟩ := bind_eq_some_iff.1 h
    obtain ⟨buf₂, -, h⟩ := bind_eq_some_iff.1 h
    obtain ⟨buf₃, hcpy, rfl⟩ := map_eq_some_iff.1 h
    refine ⟨crypt ((buf₁.drop headSize).take msg.msgSize),
      (buf₂.drop headSize).take msg.msgSize, ?_⟩
    have hall : ∀ body, (head body).take (headSize + msg.msgSize) = head body := fun body =>
      take_of_length_le (by rw [hhead]; omega)
    rw [Output.frame, eq_of_memcpy_zero hcpy, hhead]
    simp [take_append, hhead, hall]
  · obtain ⟨dbuf, -, h⟩ := bind_eq_some_iff.1 h
    obtain ⟨buf₂, -, h⟩ := bind_eq_some_iff.1 h
    obtain ⟨buf₃, hcpy, rfl⟩ := map_eq_some_iff.1 h
    rw [Output.frame, take_length, eq_of_memcpy_zero hcpy, append_assoc]
    exact ⟨_, _, rfl⟩

theorem exists_cut {n : ℕ} (hn : headSize + n ≤ buf.length) :
    ∃ pre mid post, buf = pre ++ (mid ++ post) ∧ pre.length = headSize ∧ mid.length = n := by
  refine ⟨buf.take headSize, (buf.drop headSize).take n, (buf.drop headSize).drop n, ?_, ?_, ?_⟩
  · rw [take_append_drop, take_append_drop]
  · rw [length_take]
    omega
  · rw [length_take, length_drop]
    omega

section

variable (hhead : ∀ body, (head body).length = headSize)
  (hcrypt : ∀ bytes, (crypt bytes).length = bytes.length)
include hhead hcrypt

theorem writeBehind_of_upToDate (h : msg.UpToDate)
    (hfit : headSize + msg.bytes.length ≤ buf.length) :
    ∃ post, writeBehind headSize head crypt msg buf =
      some ⟨head (crypt msg.bytes) ++ (crypt msg.bytes ++ post), headSize + msg.bytes.length, [],
        0⟩ := by
  have hsize := ProtoMessage.msgSize_of_upToDate h
  obtain ⟨pre, mid, post, rfl, hpre, hmid⟩ := exists_cut hfit
  subst hpre
  have hserialize : (if 0 < msg.msgSize then memcpy (pre ++ (mid ++ post)) pre.length msg.bytes
      else some (pre ++ (mid ++ post))) = some (pre ++ (msg.bytes ++ post)) := by
    split_ifs with hpos
    · exact memcpy_append pre post hmid
    · have hnil : msg.bytes = [] := eq_nil_of_length_eq_zero (by omega)
      rw [hnil] at hmid ⊢
      rw [eq_nil_of_length_eq_zero hmid]
  have hbody : ((pre ++ (msg.bytes ++ post)).drop pre.length).take msg.msgSize = msg.bytes := by
    rw [drop_left, hsize, take_left]
  have hencrypt := memcpy_append pre post (hcrypt msg.bytes).symm
  have hfront := memcpy_append [] (crypt msg.bytes ++ post) (hhead (crypt msg.bytes)).symm
  refine ⟨post, ?_⟩
  simp only [nil_append, length_nil] at hfront
  rw [writeBehind, hserialize, bind_some]
  dsimp only
  rw [hbody, hencrypt, bind_some, hfront, map_some, hsize]

theorem writeAside_of_upToDate (h : msg.UpToDate)
    (hbuf : headSize ≤ buf.length) (hfit : ¬headSize + msg.bytes.length ≤ buf.length) :
    writeAside headSize head crypt msg buf =
      some ⟨head (crypt msg.bytes) ++ (crypt msg.bytes).take (buf.length - headSize), buf.length,
        crypt msg.bytes, buf.length - headSize⟩ := by
  have hsize := ProtoMessage.msgSize_of_upToDate h
  have hlen : headSize + (buf.length - headSize) ≤ buf.length := by omega
  obtain ⟨pre, mid, post, hcut, hpre, hmid⟩ := exists_cut hlen
  obtain rfl : post = [] := by
    have := congrArg List.length hcut
    simp only [length_append] at this
    exact eq_nil_of_length_eq_zero (by omega)
  have hserialize : memcpy (List.replicate msg.msgSize 0) 0 msg.bytes = some msg.bytes := by
    have hzeros : (List.replicate msg.msgSize (0 : UInt8)).length = msg.bytes.length := by
      rw [length_replicate, hsize]
    simpa using memcpy_append [] [] hzeros
  have htake : ((crypt msg.bytes).take (buf.length - headSize)).length = mid.length := by
    rw [length_take, hcrypt]
    omega
  have hpart := memcpy_append pre [] htake.symm
  rw [← hcut, hpre] at hpart
  have hfront := memcpy_append [] ((crypt msg.bytes).take (buf.length - headSize) ++ [])
    (hpre.trans (hhead (crypt msg.bytes)).symm)
  simp only [nil_append, length_nil] at hfront
  have hsum : (head (crypt msg.bytes) ++ (crypt msg.bytes).take (buf.length - headSize)).length =
      buf.length := by
    rw [length_append, hhead, htake, hmid]
    omega
  rw [writeAside, hserialize, bind_some]
  dsimp only
  rw [hpart, bind_some, hfront, map_some, append_nil, hsum]

/-- **A message whose cached size is right** is written within its space, as the encoder that
knows no memory has it. -/
theorem writeMessage_of_upToDate (hbuf : headSize ≤ buf.length) (h : msg.UpToDate) :
    ∃ out, writeMessage headSize head crypt msg buf = some out ∧
      out.frame = head (crypt msg.bytes) ++ crypt msg.bytes ∧
      ∀ encode, Encodes headSize encode (head (crypt msg.bytes)) (crypt msg.bytes) →
        encode buf.length [] 0 =
          .wrote (out.buf.take out.size) out.downflowBuf out.downflowBufSentNum := by
  have hsize := ProtoMessage.msgSize_of_upToDate h
  unfold writeMessage
  by_cases hfit : headSize + msg.bytes.length ≤ buf.length
  · obtain ⟨post, hwrite⟩ := writeBehind_of_upToDate hhead hcrypt h hfit
    rw [if_pos (by omega), hwrite]
    have hsent : (head (crypt msg.bytes) ++ (crypt msg.bytes ++ post)).take
        (headSize + msg.bytes.length) = head (crypt msg.bytes) ++ crypt msg.bytes := by
      rw [← append_assoc]
      refine take_left' ?_
      rw [length_append, hhead, hcrypt]
    refine ⟨_, rfl, ?_, fun encode henc => ?_⟩
    · simp only [Output.frame, hsent, drop_nil, append_nil]
    · rw [henc.fits buf.length (by rw [hcrypt]; exact hfit), hsent]
  · rw [if_neg (by omega), writeAside_of_upToDate hhead hcrypt h hbuf hfit]
    have hsum : (head (crypt msg.bytes) ++ (crypt msg.bytes).take (buf.length - headSize)).length =
        buf.length := by
      rw [length_append, hhead, length_take, hcrypt]
      omega
    refine ⟨_, rfl, ?_, fun encode henc => ?_⟩
    · rw [Output.frame, take_of_length_le hsum.le, append_assoc, take_append_drop]
    · rw [henc.spills buf.length hbuf (by rw [hcrypt]; omega), take_of_length_le hsum.le]

end

/-- **What goes out is the value under its size exactly where the cached size is right.** -/
theorem writeMessage_carries_iff (hhead : ∀ body, (head body).length = headSize)
    (hfield : ∀ body, field (head body) 0 4 = msg.msgSize) (hfour : 4 ≤ headSize)
    (hcrypt : ∀ bytes, (crypt bytes).length = bytes.length) (hbuf : headSize ≤ buf.length) :
    (∃ out, writeMessage headSize head crypt msg buf = some out ∧
        field out.frame 0 4 = msg.bytes.length ∧
        out.frame.drop headSize = crypt msg.bytes) ↔ msg.UpToDate := by
  have hread : ∀ body rest, field (head body ++ rest) 0 4 = msg.msgSize := fun body rest => by
    rw [field_append_of_le (by rw [hhead]; exact hfour), hfield]
  constructor
  · rintro ⟨out, hout, hlength, -⟩
    obtain ⟨body, rest, hframe⟩ := head_of_writeMessage hhead hout
    rw [hframe, hread] at hlength
    unfold ProtoMessage.msgSize at hlength
    split_ifs at hlength with hzero
    · exact .inl hzero
    · exact .inr hlength
  · intro h
    obtain ⟨out, hout, hframe, -⟩ := writeMessage_of_upToDate hhead hcrypt hbuf h
    refine ⟨out, hout, ?_, ?_⟩
    · rw [hframe, hread, ProtoMessage.msgSize_of_upToDate h]
    · rw [hframe]
      exact drop_left' (hhead _)

end Written

inductive Encoder (μ : Type)
  | message (conn : Connection μ) (type : Int32) (needCrypt : Bool) (tag : UInt16)
      (serial : UInt32)
  | request (task : RequestTask)
  | response (task : ResponseTask)

namespace Encoder

def headSize : Encoder μ → ℕ
  | message .. => messageHeadSize
  | request _ => requestHeadSize
  | response _ => responseHeadSize

def crypt : Encoder μ → List UInt8 → List UInt8
  | message conn _ needCrypt _ _ => conn.encrypt needCrypt
  | request _ => id
  | response _ => id

/-- A frame is produced: there is space for the head, the crypter that is asked for is there, no
assertion fails, and a response is one and not an error. -/
def Ready (buf : List UInt8) : Encoder μ → Prop
  | message conn _ needCrypt _ _ =>
    messageHeadSize ≤ buf.length ∧ ¬(needCrypt = true ∧ conn.crypter.isNone)
  | request task => requestHeadSize ≤ buf.length ∧ (task.response || task.done) = true
  | response task => responseHeadSize ≤ buf.length ∧ task.controller.failed = false

instance (buf : List UInt8) : DecidablePred (Ready (μ := μ) buf) := fun via =>
  match via with
  | message .. | request _ | response _ => inferInstanceAs (Decidable (_ ∧ _))

def encodeTo (msg : ProtoMessage) (buf : List UInt8) : Encoder μ → Option Output
  | message conn type needCrypt tag serial =>
    MessageTerminal.encodeTo conn type needCrypt tag serial msg buf
  | request task => RpcClient.encodeTo { task with request := msg } buf
  | response task => RpcServer.encodeTo { task with response := msg } buf

def encode (msg : ProtoMessage) : Encoder μ → ℕ → List UInt8 → ℕ → Encoded
  | message conn type needCrypt tag serial =>
    Message.encode conn ⟨type, needCrypt, tag, serial, .proto msg⟩
  | request task => RpcClient.encode { task with request := msg }
  | response task => RpcServer.encode { task with response := msg }

/-- **What a send has to do**: write within its space, announce the size of the current value, and
carry that value. -/
def Carries (via : Encoder μ) (msg : ProtoMessage) (buf : List UInt8) : Prop :=
  ∃ out, via.encodeTo msg buf = some out ∧ field out.frame 0 4 = msg.bytes.length ∧
    out.frame.drop via.headSize = via.crypt msg.bytes

variable {via : Encoder μ} {msg : ProtoMessage} {buf : List UInt8}

theorem carries_iff (hready : via.Ready buf) (hsize : msg.msgSize < 2 ^ 32) :
    via.Carries msg buf ↔ msg.UpToDate := by
  cases via with
  | message conn type needCrypt tag serial =>
    unfold Carries encodeTo MessageTerminal.encodeTo
    simp only [if_neg hready.2]
    refine writeMessage_carries_iff (fun _ => length_encodeHead ..) (fun body => ?_) (by decide)
      (fun bytes => ?_) hready.1
    · rw [encodeHead, field_append_left (by simp), beVal_beBytes]
      exact Nat.mod_eq_of_lt hsize
    · exact length_encrypt conn needCrypt bytes
  | request task =>
    exact writeMessage_carries_iff (fun _ => length_requestHead _)
      (fun _ => field_requestHead { task with request := msg } hsize) (by decide)
      (fun _ => rfl) hready.1
  | response task =>
    have hok := hready.2
    have hmsg : ResponseTask.msgSize { task with response := msg } = msg.msgSize := by
      simp [ResponseTask.msgSize, hok]
    unfold Carries encodeTo RpcServer.encodeTo
    simp only [hok, Bool.false_eq_true, if_false]
    refine writeMessage_carries_iff (fun _ => length_responseHead _) (fun _ => ?_) (by decide)
      (fun _ => rfl) hready.1
    rw [field_responseHead { task with response := msg } (by rw [hmsg]; exact hsize), hmsg]

/-- **The two renderings of an encoder agree** where a frame is produced. -/
theorem encode_eq_encodeTo (hready : via.Ready buf) (h : msg.UpToDate) :
    ∃ out, via.encodeTo msg buf = some out ∧ via.encode msg buf.length [] 0 =
        .wrote (out.buf.take out.size) out.downflowBuf out.downflowBufSentNum := by
  cases via with
  | message conn type needCrypt tag serial =>
    have hbytes : encodeBody conn ⟨type, needCrypt, tag, serial, .proto msg⟩ =
        conn.encrypt needCrypt msg.bytes :=
      congrArg (conn.encrypt needCrypt) (ProtoMessage.serializeToArray_of_upToDate h)
    have henc := encodes_encodeBody
      (d := (conn, ⟨type, needCrypt, tag, serial, .proto msg⟩)) hready.2
    simp only [messageHead, hbytes] at henc
    obtain ⟨out, hout, -, hsame⟩ := writeMessage_of_upToDate (fun _ => length_encodeHead ..)
      (length_encrypt conn needCrypt) hready.1 h
    exact ⟨out, (if_neg hready.2).trans hout, hsame _ henc⟩
  | request task =>
    let task' := { task with request := msg }
    have hdone : (task'.response || task'.done) = true := hready.2
    have henc := encodes_requestBody hdone
    rw [requestBody, ProtoMessage.serializeToArray_of_upToDate h] at henc
    obtain ⟨out, hout, -, hsame⟩ := writeMessage_of_upToDate
      (fun _ => length_requestHead task') (fun _ => rfl) hready.1 h
    exact ⟨out, hout, hsame _ henc⟩
  | response task =>
    have hok := hready.2
    have henc := encodes_responseBody { task with response := msg }
    simp only [responseBody, hok, Bool.false_eq_true, if_false,
      ProtoMessage.serializeToArray_of_upToDate h] at henc
    unfold encodeTo RpcServer.encodeTo
    simp only [hok, Bool.false_eq_true, if_false]
    obtain ⟨out, hout, -, hsame⟩ := writeMessage_of_upToDate
      (fun _ => length_responseHead { task with response := msg }) (fun _ => rfl) hready.1 h
    exact ⟨out, hout, hsame _ henc⟩

end Encoder

/-- What happens to a message object: its fields change, someone asks for its size, an encoder
sends it. -/
inductive MessageOp (μ : Type)
  | change (value : List UInt8)
  | byteSizeLong
  | send (via : Encoder μ) (buf : List UInt8)

/-- One of them.  Messages are shorter than `2 ^ 31` bytes.  A change keeps the cached size; an
encoder computes it where it is 0. -/
def objectStep (msg : ProtoMessage) : MessageOp μ → Option ProtoMessage
  | .change value => if value.length < 2 ^ 31 then some { msg with bytes := value } else none
  | .byteSizeLong => some { msg with cachedSize := msg.bytes.length }
  | .send via buf => if via.Ready buf then some { msg with cachedSize := msg.msgSize } else none

/-- `P` holds at every send of a history, of the message as it then is. -/
def EachSend (P : ProtoMessage → Encoder μ → List UInt8 → Prop) :
    ProtoMessage → List (MessageOp μ) → Prop
  | _, [] => True
  | msg, .send via buf :: ops =>
    P msg via buf ∧ ∀ msg', objectStep msg (.send via buf) = some msg' → EachSend P msg' ops
  | msg, op :: ops => ∀ msg', objectStep msg op = some msg' → EachSend P msg' ops

def Short (msg : ProtoMessage) : Prop := msg.bytes.length < 2 ^ 31 ∧ msg.cachedSize < 2 ^ 31

theorem Short.msgSize {msg : ProtoMessage} (h : Short msg) : msg.msgSize < 2 ^ 31 := by
  unfold ProtoMessage.msgSize
  split_ifs
  · exact h.1
  · exact h.2

theorem Short.step {msg msg' : ProtoMessage} (h : Short msg) {op : MessageOp μ}
    (hs : objectStep msg op = some msg') : Short msg' := by
  cases op with
  | change value =>
    obtain ⟨hlen, rfl⟩ := ite_some_none_eq_some.1 hs
    exact ⟨hlen, h.2⟩
  | byteSizeLong =>
    cases hs
    exact ⟨h.1, h.1⟩
  | send via buf =>
    obtain ⟨-, rfl⟩ := ite_some_none_eq_some.1 hs
    exact ⟨h.1, h.msgSize⟩

/-- **The frames carry the value exactly where the cached size is right**, for any of the three
encoders. -/
theorem frames_carry_value_iff {value : List UInt8} (hvalue : value.length < 2 ^ 31)
    {ops : List (MessageOp μ)} {msg : ProtoMessage}
    (hrun : run objectStep ⟨value, 0⟩ ops = some msg) :
    EachSend (fun msg via buf => via.Carries msg buf) ⟨value, 0⟩ ops ↔
      EachSend (fun msg _ _ => msg.UpToDate) ⟨value, 0⟩ ops := by
  have hshort : Short ⟨value, 0⟩ := ⟨hvalue, Nat.two_pow_pos 31⟩
  generalize (⟨value, 0⟩ : ProtoMessage) = start at hrun hshort
  clear hvalue
  induction ops generalizing start with
  | nil => exact Iff.rfl
  | cons op ops ih =>
    rw [run_cons] at hrun
    obtain ⟨next, hnext, hrest⟩ := bind_eq_some_iff.1 hrun
    have hlater := ih next hrest (hshort.step hnext)
    -- a step has one outcome
    have hone : ∀ P : ProtoMessage → Encoder μ → List UInt8 → Prop,
        (∀ msg', objectStep start op = some msg' → EachSend P msg' ops) ↔ EachSend P next ops := by
      intro P
      rw [hnext]
      simp
    cases op with
    | change value | byteSizeLong => exact (hone _).trans (hlater.trans (hone _).symm)
    | send via buf =>
      have hready := (ite_none_right_eq_some.1 hnext).1
      have hsize : start.msgSize < 2 ^ 32 := lt_trans hshort.msgSize (by decide)
      exact and_congr (Encoder.carries_iff hready hsize)
        ((hone _).trans (hlater.trans (hone _).symm))

def someRequest : RequestTask := ⟨7, 0, 3, 0, ⟨[], 0⟩, true, false⟩

def someResponse : ResponseTask := ⟨3, 0, .reset, ⟨[], 0⟩⟩

def someEncoders : List (Encoder Unit) :=
  [.message ⟨⟨false, false, false, [], true⟩, none, none, 0, 0, false, 0⟩ 1 false 0 0,
    .request someRequest, .response someResponse]

def announced (via : Encoder Unit) (msg : ProtoMessage) (space : ℕ) : Option (ℕ × List UInt8) :=
  (via.encodeTo msg (List.replicate (via.headSize + space) 0)).map fun out =>
    (field out.frame 0 4, out.frame.drop via.headSize)

/-- **An object that grew since it was sent goes out under its old size**, and behind the end of the
buffer where there is space for no more. -/
theorem resent_object_misframed :
    run objectStep ⟨[1, 2], 0⟩
        [.send (.request someRequest : Encoder Unit) (List.replicate 30 0), .change [1, 2, 3]] =
      some ⟨[1, 2, 3], 2⟩ ∧
    (∀ via ∈ someEncoders, announced via ⟨[1, 2, 3], 2⟩ 10 = some (2, [1, 2]) ∧
      announced via ⟨[1, 2, 3], 2⟩ 2 = none ∧ announced via ⟨[1, 2, 3], 2⟩ 1 = none ∧
      announced via ⟨[9], 2⟩ 10 = some (2, [9, 0])) := by
  decide +kernel

theorem encode_eq_encodeTo_spilled :
    ∃ out, Encoder.encodeTo ⟨[1, 2], 0⟩ (List.replicate 29 0)
        (.request someRequest : Encoder Unit) = some out ∧
      Encoder.encode ⟨[1, 2], 0⟩ (.request someRequest : Encoder Unit) 29 [] 0 =
        .wrote (out.buf.take out.size) out.downflowBuf out.downflowBufSentNum :=
  Encoder.encode_eq_encodeTo (by decide) (.inl rfl)

/-- `frames_carry_value_iff` at an object that is sent, set to another value of the same size and
sent again, and that is measured after it has grown. -/
theorem frames_carry_value_measured :
    EachSend (fun msg (via : Encoder Unit) buf => via.Carries msg buf) ⟨[1, 2], 0⟩
      [.send (.request someRequest) (List.replicate 40 0), .change [3, 4],
        .send (.request someRequest) (List.replicate 29 0), .change [1, 2, 3], .byteSizeLong,
        .send (.response someResponse) (List.replicate 40 0)] := by
  have hrun : run (objectStep (μ := Unit)) ⟨[1, 2], 0⟩
      [.send (.request someRequest) (List.replicate 40 0), .change [3, 4],
        .send (.request someRequest) (List.replicate 29 0), .change [1, 2, 3], .byteSizeLong,
        .send (.response someResponse) (List.replicate 40 0)] = some ⟨[1, 2, 3], 3⟩ := by
    decide +kernel
  refine (frames_carry_value_iff (by decide) hrun).2 ⟨.inl rfl, ?_⟩
  rintro _ ⟨⟩ _ ⟨⟩
  refine ⟨.inr rfl, ?_⟩
  rintro _ ⟨⟩ _ ⟨⟩ _ ⟨⟩
  exact ⟨.inr rfl, fun _ _ => trivial⟩

end Corpc.Pipeline
