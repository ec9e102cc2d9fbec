/-
# The sizes that the two KCP ends take

A `KcpMessageServer` and a `KcpClient` hand to their pipelines the longest body they take: 65536
bytes at the server, 540 at the client, whose constructor still names the limit of a UDP message.
-/

import Corpc.Kcp.Client
import Corpc.Message.Acknowledge

namespace Corpc.Kcp

open Corpc.Basis Wire Message Pipeline List

variable {κ τ μ : Type}

section Row

variable {cfg : Config} {dec : DecodeFunction κ τ} {δ : Type} {frame : δ → List UInt8 × List UInt8}

theorem feed_tooLarge {head : List UInt8} (hhead : head.length = cfg.headSize)
    (hbig : cfg.maxBodySize < cfg.readSize head) (log : Log κ τ) (rest : List UInt8) :
    feed (Deframer.byte cfg dec) ⟨[], log⟩ (head ++ rest) = .stop .refused ⟨head, log⟩ := by
  have hne : head ≠ [] := ne_nil_of_length_pos (hhead ▸ cfg.headSize_pos)
  have hnot : ¬head.length < cfg.headSize := by omega
  rw [feed_append, Deframer.feed_head hne (by simp [hhead]), nil_append, Deframer.check,
    if_neg hnot, if_pos hbig, Flow.stop_bind]

theorem decode_all (dec : DecodeFunction κ τ) (log : Log κ τ) (head body : List UInt8) :
    (log.decode dec head body).All (fun log => dec.isDecodeError log.conn = false)
      fun r log => r = .refused → dec.isDecodeError log.conn = true := by
  unfold Log.decode
  split
  · exact fun h => by cases h
  · dsimp only
    split_ifs with herr
    · exact fun _ => herr
    · simpa [Flow.All] using herr

/-- **A row of frames within the limit** is refused by the decoder only. -/
theorem feed_row_all {items : List δ} (hf : ∀ d ∈ items, Framed cfg (frame d))
    (dec : DecodeFunction κ τ) (log : Log κ τ) (hlog : dec.isDecodeError log.conn = false) :
    (feed (Deframer.byte cfg dec) ⟨[], log⟩
        (items.flatMap fun d => (frame d).1 ++ (frame d).2)).All
      (fun d => d.pending = [] ∧ dec.isDecodeError d.log.conn = false)
      fun r d => r = .refused → dec.isDecodeError d.log.conn = true := by
  induction items generalizing log with
  | nil => exact ⟨rfl, hlog⟩
  | cons d items ih =>
    have hd := hf d mem_cons_self
    have hdecode := decode_all dec log (frame d).1 (frame d).2
    rw [flatMap_cons, feed_append, Deframer.feed_framed hd, Deframer.check_framed hd]
    cases hlog' : log.decode dec (frame d).1 (frame d).2 with
    | more log₁ =>
      rw [hlog'] at hdecode
      exact ih (fun x hx => hf x (mem_cons_of_mem d hx)) log₁ hdecode
    | stop r log₁ =>
      rw [hlog'] at hdecode
      exact hdecode

theorem feed_row_refused (hdec : dec.NoError) {items : List δ}
    (hhead : ∀ d ∈ items, (frame d).1.length = cfg.headSize)
    (hread : ∀ d ∈ items, cfg.readSize (frame d).1 = (frame d).2.length)
    (hbig : ∃ d ∈ items, cfg.maxBodySize < (frame d).2.length) (log : Log κ τ)
    (hlog : dec.isDecodeError log.conn = false) :
    ∃ d, feed (Deframer.byte cfg dec) ⟨[], log⟩
        (items.flatMap fun d => (frame d).1 ++ (frame d).2) = .stop .refused d ∧
      dec.isDecodeError d.log.conn = false := by
  induction items generalizing log with
  | nil =>
    obtain ⟨d, hd, -⟩ := hbig
    cases hd
  | cons d items ih =>
    rw [flatMap_cons]
    by_cases hd : cfg.maxBodySize < (frame d).2.length
    · rw [← hread d mem_cons_self] at hd
      rw [append_assoc, feed_tooLarge (hhead d mem_cons_self) hd]
      exact ⟨_, rfl, hlog⟩
    · have hrest : ∃ x ∈ items, cfg.maxBodySize < (frame x).2.length := by
        obtain ⟨x, hx, hlong⟩ := hbig
        rcases mem_cons.1 hx with rfl | hx
        · exact absurd hlong hd
        · exact ⟨x, hx, hlong⟩
      have hf : Framed cfg (frame d) :=
        ⟨hhead d mem_cons_self, hread d mem_cons_self, not_lt.1 hd⟩
      obtain ⟨c, task, hc, herr⟩ := hdec log.conn (frame d).1 (frame d).2
      have hlog' : log.decode dec (frame d).1 (frame d).2 = .more
          ⟨c, log.calls ++ [((frame d).1, (frame d).2)], log.tasks ++ task.toList⟩ := by
        simp [Log.decode, hc, herr]
      rw [feed_append, Deframer.feed_framed hf, Deframer.check_framed hf, hlog']
      exact ih (fun x hx => hhead x (mem_cons_of_mem d hx))
        (fun x hx => hread x (mem_cons_of_mem d hx)) hrest _ herr

end Row

theorem messageHeadSize_lt : messageHeadSize < 2 ^ 31 := by decide

theorem maxMessageSize_lt : maxMessageSize < 2 ^ 31 := by decide

theorem maxUdpMessageSize_lt : maxUdpMessageSize < 2 ^ 31 := by decide

theorem size_in_messageHead : 0 + SizeType.fourBytes.width ≤ messageHeadSize := by decide

/-- The pipeline that `KcpMessageServer::KcpMessageServer` asks for. -/
def serverConfig : Config :=
  ⟨messageHeadSize, maxMessageSize, 0, .fourBytes, messageHeadSize_lt, maxMessageSize_lt,
    size_in_messageHead⟩

/-- The pipeline that `KcpClient::KcpClient` asks for. -/
def clientConfig : Config :=
  ⟨messageHeadSize, maxUdpMessageSize, 0, .fourBytes, messageHeadSize_lt, maxUdpMessageSize_lt,
    size_in_messageHead⟩

inductive Direction
  | toClient
  | toServer
  deriving DecidableEq

def Direction.receiver : Direction → Config
  | .toClient => clientConfig
  | .toServer => serverConfig

def sentFrame (d : Connection μ × SendMessageInfo) : List UInt8 × List UInt8 :=
  (messageHead d.1 d.2, encodeBody d.1 d.2)

/-- Messages that have the crypter they need go down the sending path, as they are queued and
with any space for each call of `downflow`, until nothing is left. -/
structure SentAs (items : List (Connection μ × SendMessageInfo))
    (calls : List (List (Connection μ × SendMessageInfo) × ℕ)) (outs : List (List UInt8)) :
    Prop where
  crypter : ∀ d ∈ items, ¬(d.2.needCrypt = true ∧ d.1.crypter.isNone)
  arrival : calls.flatMap Prod.fst = items
  space : ∀ call ∈ calls, messageHeadSize ≤ call.2
  sent : ∃ st, Downflow.serve encodeMessage ⟨[], 0, []⟩ calls = some (outs, st) ∧ st.Drained

/-- KCP delivers: each package that was given to `kcpSend` comes out of `kcpRecv` once, in
order, after one datagram or another.  Handshake datagrams may stand between them. -/
structure Delivers (inputs : List KcpInput) (packages : List (List UInt8)) : Prop where
  answered : ∀ input ∈ inputs, input.isHandshake = true → input.replyFails = false
  packages : (inputs.filter fun input => !input.isHandshake).flatMap KcpInput.packages = packages

/-- A call of `upflow` has refused a frame for its size: it has returned `false`, and not for an
error of the decoder. -/
def TooLarge (dec : DecodeFunction κ τ) (x : Flow Exit (KcpPipeline κ τ)) : Prop :=
  x.reason = some .refused ∧ dec.isDecodeError x.state.pipe.log.conn = false

def Admits (cfg : Config) (inputs : List KcpInput) : Prop :=
  ∀ (κ τ : Type) (dec : DecodeFunction κ τ) (conn : κ), dec.isDecodeError conn = false →
    ¬TooLarge dec (feed (KcpPipeline.upflow cfg dec) (.new cfg conn) inputs)

theorem SentAs.flatten_packages {items : List (Connection μ × SendMessageInfo)}
    {calls : List (List (Connection μ × SendMessageInfo) × ℕ)} {outs : List (List UInt8)}
    (h : SentAs items calls outs) :
    (packages outs).flatten = items.flatMap fun d => (sentFrame d).1 ++ (sentFrame d).2 := by
  obtain ⟨st, hserve, hdrained⟩ := h.sent
  have hencodes : ∀ d ∈ calls.flatMap Prod.fst,
      Encodes messageHeadSize (encodeMessage d) (sentFrame d).1 (sentFrame d).2 := by
    rw [h.arrival]
    exact fun d hd => encodes_encodeBody (h.crypter d hd)
  rw [Kcp.flatten_packages, serve_drained (by decide) hencodes h.space hserve hdrained, h.arrival]

theorem Delivers.proper {inputs : List KcpInput} {outs : List (List UInt8)}
    (h : Delivers inputs (Kcp.packages outs)) : ∀ input ∈ inputs, input.Proper := by
  intro input hi
  unfold KcpInput.Proper
  split_ifs with hs
  · exact h.answered input hi hs
  · intro package hp
    have hmem : package ∈ Kcp.packages outs := by
      rw [← h.packages]
      exact mem_flatMap.2 ⟨input, mem_filter.2 ⟨hi, by simpa using hs⟩, hp⟩
    exact length_of_mem_packages hmem

theorem Delivers.data {inputs : List KcpInput} {pkgs : List (List UInt8)}
    (h : Delivers inputs pkgs) : inputs.flatMap KcpInput.data = pkgs.flatten := by
  obtain ⟨-, rfl⟩ := h
  induction inputs with
  | nil => rfl
  | cons input inputs ih =>
    rw [flatMap_cons, ih, KcpInput.data]
    by_cases hs : input.isHandshake = true
    · rw [if_pos hs, filter_cons_of_neg (by simp [hs]), nil_append]
    · rw [if_neg hs, filter_cons_of_pos (by simpa using hs), flatMap_cons, flatten_append]

theorem tooLarge_iff {cfg : Config} {dec : DecodeFunction κ τ} {conn : κ}
    {inputs : List KcpInput} (hp : ∀ input ∈ inputs, input.Proper) :
    TooLarge dec (feed (KcpPipeline.upflow cfg dec) (.new cfg conn) inputs) ↔
      (feed (Deframer.byte cfg dec) ⟨[], ⟨conn, [], []⟩⟩ (inputs.flatMap KcpInput.data)).reason =
          some .refused ∧
        dec.isDecodeError (feed (Deframer.byte cfg dec) ⟨[], ⟨conn, [], []⟩⟩
          (inputs.flatMap KcpInput.data)).state.log.conn = false := by
  have hreport := report_datagrams cfg dec conn hp
  have hreason : _ = _ := congrArg Prod.fst hreport
  have hlog : _ = _ := congrArg Prod.snd hreport
  simp only [KcpPipeline.report, Deframer.report] at hreason hlog
  rw [TooLarge, hreason, hlog]

section Sizes

variable {items : List (Connection μ × SendMessageInfo)}
  {calls : List (List (Connection μ × SendMessageInfo) × ℕ)} {outs : List (List UInt8)}
  {inputs : List KcpInput}

theorem admits_iff {cfg : Config} (hhead : cfg.headSize = messageHeadSize)
    (hread : ∀ head, cfg.readSize head = field head 0 4)
    (hsize : ∀ d ∈ items, d.2.msg.msgSize ≤ maxMessageSize) (hsent : SentAs items calls outs)
    (hdel : Delivers inputs (packages outs)) :
    Admits cfg inputs ↔ ∀ d ∈ items, d.2.msg.msgSize ≤ cfg.maxBodySize := by
  have hstream : inputs.flatMap KcpInput.data =
      items.flatMap fun d => (sentFrame d).1 ++ (sentFrame d).2 :=
    hdel.data.trans hsent.flatten_packages
  have hlen : ∀ d : Connection μ × SendMessageInfo, (sentFrame d).2.length = d.2.msg.msgSize :=
    fun d => length_encodeBody d.1 d.2
  have hheads : ∀ d ∈ items, (sentFrame d).1.length = cfg.headSize := fun d _ =>
    (length_messageHead d.1 d.2).trans hhead.symm
  have hreads : ∀ d ∈ items, cfg.readSize (sentFrame d).1 = (sentFrame d).2.length := by
    intro d hd
    rw [hread, hlen]
    exact field_messageHead d.1 d.2 (lt_of_le_of_lt (hsize d hd) (by decide))
  constructor
  · intro hadmits
    by_contra hbig
    push Not at hbig
    -- a decoder that takes everything comes to the message that is too long
    have hdec : tinyDecoder.NoError := fun c head body => ⟨c, some body, rfl, rfl⟩
    have hbig' : ∃ d ∈ items, cfg.maxBodySize < (sentFrame d).2.length := by
      obtain ⟨d, hd, hlong⟩ := hbig
      exact ⟨d, hd, (hlen d).symm ▸ hlong⟩
    obtain ⟨d, hd, herr⟩ := feed_row_refused hdec hheads hreads hbig' ⟨(), [], []⟩ rfl
    refine hadmits Unit (List UInt8) tinyDecoder () rfl ((tooLarge_iff hdel.proper).2 ?_)
    rw [hstream, hd]
    exact ⟨rfl, herr⟩
  · intro hle κ τ dec conn hconn htoo
    have hframed : ∀ d ∈ items, Framed cfg (sentFrame d) := fun d hd =>
      ⟨hheads d hd, hreads d hd, (hlen d).symm ▸ hle d hd⟩
    have hall := feed_row_all hframed dec ⟨conn, [], []⟩ hconn
    obtain ⟨hreason, herr⟩ := (tooLarge_iff hdel.proper).1 htoo
    rw [hstream] at hreason herr
    generalize feed (Deframer.byte cfg dec) _ _ = x at hall hreason herr
    cases x with
    | more d => cases hreason
    | stop r d =>
      obtain rfl : r = .refused := Option.some.inj hreason
      exact absurd ((hall rfl : dec.isDecodeError d.log.conn = true).symm.trans herr) (by decide)

/-- **Which messages the receiving end admits**: up to 65536 bytes at the server, up to 540 at the
client. -/
theorem kcp_sizes_admitted_iff (dir : Direction)
    (hsize : ∀ d ∈ items, d.2.msg.msgSize ≤ maxMessageSize) (hsent : SentAs items calls outs)
    (hdel : Delivers inputs (packages outs)) :
    Admits dir.receiver inputs ↔
      dir = .toServer ∨ ∀ d ∈ items, d.2.msg.msgSize ≤ maxUdpMessageSize := by
  cases dir with
  | toClient =>
    rw [Direction.receiver, admits_iff rfl (fun _ => rfl) hsize hsent hdel]
    exact (or_iff_right (by decide)).symm
  | toServer =>
    rw [Direction.receiver, admits_iff rfl (fun _ => rfl) hsize hsent hdel]
    exact iff_of_true hsize (.inl rfl)

theorem SentAs.single {space : ℕ}
    (hcrypter : ∀ d ∈ items, ¬(d.2.needCrypt = true ∧ d.1.crypter.isNone))
    (hspace : messageHeadSize ≤ space)
    (hfit : (items.flatMap fun d => (sentFrame d).1 ++ (sentFrame d).2).length ≤ space) :
    SentAs items [(items, space)]
      [items.flatMap fun d => (sentFrame d).1 ++ (sentFrame d).2] := by
  have hencodes : ∀ d ∈ items,
      Encodes messageHeadSize (encodeMessage d) (sentFrame d).1 (sentFrame d).2 :=
    fun d hd => encodes_encodeBody (hcrypter d hd)
  have hpos : 0 < messageHeadSize := by decide
  have hloop := encodeLoop_fits hpos hencodes hfit
  refine ⟨hcrypter, by simp, by simpa using hspace, ⟨[], 0, []⟩, ?_, rfl, rfl⟩
  simp [Downflow.serve, Downflow.downflow, hloop]

end Sizes

def zeros (n : ℕ) : List (Connection Unit × SendMessageInfo) :=
  [(buildConnection openTerminal none, ⟨7, false, 0, 1, .raw (some (List.replicate n 0))⟩)]

def zerosFrame (n : ℕ) : List UInt8 :=
  (zeros n).flatMap fun d => (sentFrame d).1 ++ (sentFrame d).2

def zerosInputs (n : ℕ) : List KcpInput := [⟨[], true, packages [zerosFrame n]⟩]

theorem zeros_delivers (n : ℕ) : Delivers (zerosInputs n) (packages [zerosFrame n]) := by
  refine ⟨?_, ?_⟩
  · intro input hi hs
    obtain rfl := mem_singleton.1 hi
    cases hs
  · simp [zerosInputs, KcpInput.isHandshake, udpHandshakeSize]

theorem zeros_size {n : ℕ} : ∀ d ∈ zeros n, d.2.msg.msgSize = n := by
  intro d hd
  obtain rfl := mem_singleton.1 hd
  simp [Payload.msgSize]

theorem zeros_le {n limit : ℕ} (hn : n ≤ limit) : ∀ d ∈ zeros n, d.2.msg.msgSize ≤ limit :=
  fun d hd => (zeros_size d hd).trans_le hn

theorem zeros_sentAs {n : ℕ} (hn : n ≤ 1000) :
    SentAs (zeros n) [(zeros n, 4096)] [zerosFrame n] := by
  refine SentAs.single ?_ (by decide) ?_
  · intro d hd
    obtain rfl := mem_singleton.1 hd
    rintro ⟨h, -⟩
    cases h
  · simp [zeros, sentFrame, Payload.msgSize, messageHeadSize]
    omega

/-- **A message of 541 bytes from the server ends the connection of its client.**  It is far
below what the server itself takes; the client's pipeline refuses it for its size. -/
theorem client_refuses_541 :
    SentAs (zeros 541) [(zeros 541, 4096)] [zerosFrame 541] ∧
      Delivers (zerosInputs 541) (packages [zerosFrame 541]) ∧
      (∀ d ∈ zeros 541, d.2.msg.msgSize ≤ serverConfig.maxBodySize) ∧
      TooLarge tinyDecoder (feed (KcpPipeline.upflow clientConfig tinyDecoder)
        (.new clientConfig ()) (zerosInputs 541)) := by
  refine ⟨zeros_sentAs (by decide), zeros_delivers 541, zeros_le (by decide), ?_⟩
  constructor
  · decide +kernel
  · rfl

theorem kcp_sizes_admitted_600_540 :
    Admits Direction.toServer.receiver (zerosInputs 600) ∧
      Admits Direction.toClient.receiver (zerosInputs 540) := by
  constructor
  · exact (kcp_sizes_admitted_iff .toServer (zeros_le (by decide)) (zeros_sentAs (by decide))
      (zeros_delivers 600)).2 (.inl rfl)
  · exact (kcp_sizes_admitted_iff .toClient (zeros_le (by decide)) (zeros_sentAs (by decide))
      (zeros_delivers 540)).2 (.inr (zeros_le (by decide)))

end Corpc.Kcp
