/-
# Where `encode` writes

`MessageTerminal::encode` in `corpc_message_terminal.cpp`, statement by statement over the three
objects it handles: the buffer it is given, `downflowBuf_`, and the message.
-/

import Corpc.Basis.Memory
import Corpc.Message.Terminal

namespace Corpc.Message

open Corpc.Basis Wire Function List

variable {μ : Type}

/-- The objects that `encode` reads and writes.  The contents of `msg` are the bytes of a
string, or what a protobuf message serialises to. -/
inductive Area
  | buf
  | downflowBuf
  | msg
  deriving DecidableEq

def memcpy (dst : Area) (o : ℕ) (src : Area) (n : ℕ) : Write Area UInt8 :=
  ⟨dst, fun mem => splice (mem dst) o ((mem src).take n)⟩

/-- `memcpy` of fields into `dst + o`. -/
def store (dst : Area) (o : ℕ) (bytes : List UInt8) : Write Area UInt8 :=
  ⟨dst, fun mem => splice (mem dst) o bytes⟩

/-- `downflowBuf = *msg`. -/
def assignMsg : Write Area UInt8 := ⟨.downflowBuf, fun mem => mem .msg⟩

/-- `downflowBuf.assign(n, 0)`. -/
def assignZeros (n : ℕ) : Write Area UInt8 := ⟨.downflowBuf, fun _ => List.replicate n 0⟩

/-- `msg->SerializeWithCachedSizesToArray(dst + o)`, of `n` bytes. -/
def serializeTo (dst : Area) (o n : ℕ) : Write Area UInt8 :=
  ⟨dst, fun mem => splice (mem dst) o
    ((mem .msg).take n ++ List.replicate (n - (mem .msg).length) 0)⟩

/-- `crypter->encrypt(p, p, n)` with `p = a + o`, where `needCrypt` is set. -/
def encryptAt (conn : Connection μ) (needCrypt : Bool) (a : Area) (o n : ℕ) : Write Area UInt8 :=
  ⟨a, fun mem => splice (mem a) o (conn.encrypt needCrypt (((mem a).drop o).take n))⟩

def fetch (payload : Payload) (n : ℕ) : Write Area UInt8 :=
  match payload with
  | .raw _ => memcpy .buf messageHeadSize .msg n
  | .proto _ => serializeTo .buf messageHeadSize n

/-- The body goes to `downflowBuf`. -/
def spill (payload : Payload) (n : ℕ) : List (Write Area UInt8) :=
  match payload with
  | .raw _ => [assignMsg]
  | .proto _ => [assignZeros n, serializeTo .downflowBuf 0 n]

/-- The statements of `encode` up to the head. -/
def bodyWrites (conn : Connection μ) (info : SendMessageInfo) (spaceleft : ℕ) :
    List (Write Area UInt8) :=
  let msgSize := info.msg.msgSize
  if msgSize ≤ spaceleft then
    if 0 < msgSize then
      [fetch info.msg msgSize, encryptAt conn info.needCrypt .buf messageHeadSize msgSize]
    else []
  else
    spill info.msg msgSize ++ encryptAt conn info.needCrypt .downflowBuf 0 msgSize ::
      if 0 < spaceleft then [memcpy .buf messageHeadSize .downflowBuf spaceleft] else []

/-- What a call of `encode` leaves. -/
structure Written where
  mem : Area → List UInt8
  size : ℕ
  downflowBufSentNum : ℕ

/-- `MessageTerminal::encode` on its objects; `none` is `false`. -/
def encodeInto (conn : Connection μ) (info : SendMessageInfo) (space : ℕ)
    (mem : Area → List UInt8) (downflowBufSentNum : ℕ) : Option Written :=
  if space < messageHeadSize then some ⟨mem, 0, downflowBufSentNum⟩
  else if info.needCrypt ∧ conn.crypter.isNone then none
  else
    let msgSize := info.msg.msgSize
    let spaceleft := space - messageHeadSize
    let mem := exec (bodyWrites conn info spaceleft) mem
    let body :=
      if msgSize ≤ spaceleft then ((mem .buf).drop messageHeadSize).take msgSize
      else mem .downflowBuf
    let crc := if conn.terminal.enableSendCRC then checkSum body 0xFFFF else 0
    let head := encodeHead msgSize info.type info.tag
      (if info.needCrypt then messageFlagCrypt else 0) conn.recvSerial info.serial crc
    some {
      mem := exec [store .buf 0 head] mem
      size := if msgSize ≤ spaceleft then messageHeadSize + msgSize else space
      downflowBufSentNum :=
        if msgSize ≤ spaceleft then downflowBufSentNum else if 0 < spaceleft then spaceleft else 0 }

theorem dst_fetch (payload : Payload) (n : ℕ) : (fetch payload n).dst = .buf := by
  unfold fetch
  split <;> rfl

theorem dst_spill {payload : Payload} {n : ℕ} {w : Write Area UInt8} (h : w ∈ spill payload n) :
    w.dst = .downflowBuf := by
  unfold spill at h
  split at h <;> simp only [mem_cons, not_mem_nil, or_false] at h
  · rw [h]; rfl
  · rcases h with rfl | rfl <;> rfl

theorem dst_bodyWrites {conn : Connection μ} {info : SendMessageInfo} {spaceleft : ℕ}
    {w : Write Area UInt8} (h : w ∈ bodyWrites conn info spaceleft) : w.dst ≠ .msg := by
  unfold bodyWrites at h
  dsimp only at h
  split_ifs at h with hfit hpos hleft
  · simp only [mem_cons, not_mem_nil, or_false] at h
    rcases h with rfl | rfl
    · rw [dst_fetch]; nofun
    · nofun
  · cases h
  · simp only [mem_append, mem_cons, not_mem_nil, or_false] at h
    rcases h with h | rfl | rfl
    · rw [dst_spill h]; nofun
    · nofun
    · nofun
  · simp only [mem_append, mem_cons, not_mem_nil, or_false] at h
    rcases h with h | rfl
    · rw [dst_spill h]; nofun
    · nofun

section Writes

variable {conn : Connection μ} {info : SendMessageInfo} {mem : Area → List UInt8}

theorem length_encrypt (conn : Connection μ) (needCrypt : Bool) (bytes : List UInt8) :
    (conn.encrypt needCrypt bytes).length = bytes.length := by
  unfold Connection.encrypt
  split
  · exact Crypter.length_encrypt ..
  · rfl

theorem run_fetch (hmsg : mem .msg = info.msg.bytes) :
    (fetch info.msg info.msg.msgSize).run mem =
      update mem .buf (splice (mem .buf) messageHeadSize info.msg.data) := by
  rcases h : info.msg with (_ | bytes) | msg <;> rw [h] at hmsg
  · simp [fetch, memcpy, Write.run, Payload.data, Payload.msgSize]
  · simp [fetch, memcpy, Write.run, hmsg, Payload.bytes, Payload.data, Payload.msgSize]
  · simp [fetch, serializeTo, Write.run, hmsg, Payload.bytes, Payload.data, Payload.msgSize,
      ProtoMessage.serializeToArray]

theorem exec_spill (hmsg : mem .msg = info.msg.bytes) :
    exec (spill info.msg info.msg.msgSize) mem = update mem .downflowBuf info.msg.data := by
  rcases h : info.msg with (_ | bytes) | msg <;> rw [h] at hmsg
  · simp [spill, assignMsg, Write.run, hmsg, Payload.bytes, Payload.data]
  · simp [spill, assignMsg, Write.run, hmsg, Payload.bytes, Payload.data]
  · have hlen := msg.length_serializeToArray msg.msgSize
    unfold ProtoMessage.serializeToArray at hlen
    simp [spill, assignZeros, serializeTo, Write.run, hmsg, Payload.bytes, Payload.data,
      Payload.msgSize, ProtoMessage.serializeToArray, splice_zero_self, hlen]

theorem exec_bodyWrites_fits (hmsg : mem .msg = info.msg.bytes)
    (hbuf : messageHeadSize ≤ (mem .buf).length) {spaceleft : ℕ}
    (hfit : info.msg.msgSize ≤ spaceleft) :
    exec (bodyWrites conn info spaceleft) mem =
      update mem .buf (splice (mem .buf) messageHeadSize (encodeBody conn info)) := by
  have hlen := info.msg.length_data
  rw [bodyWrites, if_pos hfit]
  split_ifs with hpos
  · have hslice : ((splice (mem .buf) messageHeadSize info.msg.data).drop messageHeadSize).take
        info.msg.msgSize = info.msg.data := by
      rw [← hlen]
      exact slice_splice hbuf
    rw [exec_cons, exec_cons, exec_nil, run_fetch hmsg]
    simp only [encryptAt, Write.run, update_self, hslice, update_idem]
    rw [splice_splice (length_encrypt ..) hbuf]
    rfl
  · have hnil : encodeBody conn info = [] := by
      refine eq_nil_of_length_eq_zero ?_
      rw [length_encodeBody]
      omega
    rw [hnil, splice_nil, update_eq_self, exec_nil]

theorem exec_bodyWrites_spills (hmsg : mem .msg = info.msg.bytes) {spaceleft : ℕ}
    (hfit : ¬info.msg.msgSize ≤ spaceleft) :
    exec (bodyWrites conn info spaceleft) mem =
      update (update mem .downflowBuf (encodeBody conn info)) .buf
        (splice (mem .buf) messageHeadSize ((encodeBody conn info).take spaceleft)) := by
  have hlen := info.msg.length_data
  have hcrypt : (encryptAt conn info.needCrypt .downflowBuf 0 info.msg.msgSize).run
      (update mem .downflowBuf info.msg.data) = update mem .downflowBuf (encodeBody conn info) := by
    simp only [encryptAt, Write.run, update_self, drop_zero, update_idem]
    rw [take_of_length_le hlen.le, splice_zero_self (length_encrypt ..)]
    rfl
  rw [bodyWrites, if_neg hfit, exec_append, exec_spill hmsg, exec_cons, hcrypt]
  split_ifs with hpos
  · simp [memcpy, Write.run]
  · have hzero : spaceleft = 0 := by omega
    rw [hzero, take_zero, splice_nil, exec_nil]
    funext a
    rcases a <;> rfl

/-- **`encode` on its objects is `encode`**, given a buffer of `space` bytes. -/
theorem encode_eq_encodeInto {space : ℕ} (hbuf : (mem .buf).length = space)
    (hmsg : mem .msg = info.msg.bytes) (sentNum : ℕ) :
    encode conn info space (mem .downflowBuf) sentNum =
      match encodeInto conn info space mem sentNum with
      | some w => .wrote ((w.mem .buf).take w.size) (w.mem .downflowBuf) w.downflowBufSentNum
      | none => .failed := by
  by_cases hsmall : space < messageHeadSize
  · simp [encode, encodeInto, hsmall]
  by_cases hcrypt : info.needCrypt ∧ conn.crypter.isNone
  · simp [encode, encodeInto, hsmall, hcrypt]
  have hhead : messageHeadSize ≤ (mem .buf).length := by omega
  have hbody := length_encodeBody conn info
  simp only [encode, encodeInto, if_neg hsmall, if_neg hcrypt]
  by_cases hfit : info.msg.msgSize ≤ space - messageHeadSize
  · have hslice : ((splice (mem .buf) messageHeadSize (encodeBody conn info)).drop
        messageHeadSize).take (encodeBody conn info).length = encodeBody conn info :=
      slice_splice hhead
    have htake : (splice (splice (mem .buf) messageHeadSize (encodeBody conn info)) 0
        (messageHead conn info)).take (messageHeadSize + (encodeBody conn info).length) =
          messageHead conn info ++ encodeBody conn info :=
      take_splice_head (length_messageHead conn info) hhead
    rw [hbody] at hslice htake
    simp only [if_pos hfit, exec_bodyWrites_fits hmsg hhead hfit, update_self, hslice,
      exec_cons, exec_nil, store, Write.run]
    exact congrArg (Encoded.wrote · _ _) htake.symm
  · have hpart : ((encodeBody conn info).take (space - messageHeadSize)).length =
        space - messageHeadSize := by
      rw [length_take]
      omega
    have htake : (splice (splice (mem .buf) messageHeadSize
        ((encodeBody conn info).take (space - messageHeadSize))) 0 (messageHead conn info)).take
          (messageHeadSize + ((encodeBody conn info).take (space - messageHeadSize)).length) =
        messageHead conn info ++ (encodeBody conn info).take (space - messageHeadSize) :=
      take_splice_head (length_messageHead conn info) hhead
    rw [hpart, Nat.add_sub_cancel' (by omega)] at htake
    simp only [if_neg hfit, exec_bodyWrites_spills hmsg hfit, exec_cons, exec_nil, store, Write.run]
    exact congrArg (Encoded.wrote · _ _) htake.symm

/-- **`encode` leaves the message as it was.** -/
theorem encodeInto_msg {space sentNum : ℕ} {w : Written}
    (h : encodeInto conn info space mem sentNum = some w) : w.mem .msg = mem .msg := by
  have hbody : exec (bodyWrites conn info (space - messageHeadSize)) mem .msg = mem .msg :=
    exec_of_forall_ne (fun _ hw => dst_bodyWrites hw) mem
  have hstore : ∀ head (mem' : Area → List UInt8), exec [store .buf 0 head] mem' .msg = mem' .msg :=
    fun head mem' => exec_of_forall_ne (by simp [store]) mem'
  by_cases hsmall : space < messageHeadSize
  · rw [encodeInto, if_pos hsmall] at h
    cases h
    rfl
  rw [encodeInto, if_neg hsmall, Option.ite_none_left_eq_some] at h
  obtain ⟨-, h⟩ := h
  cases h
  simp only [hstore, hbody]

end Writes

end Corpc.Message
