/-
# Which assertions a peer can trigger

The assertions of the decoders, in the pipelines that the message and RPC servers and clients build.
-/

import Corpc.Message.Decoder
import Corpc.Pipeline.Assertions
import Corpc.Rpc.Link

namespace Corpc
namespace Rpc

open Corpc.Basis Wire Pipeline Function Option ClientCall UInt64

variable {δ σ μ : Type}

def Callers.Pending (s : Callers ℕ μ) : Prop :=
  ∀ co k, s.waitResultCoMap co = some k → (s.calls k).co = co ∧ (s.calls k).controller_1 = none

def ClientCall.target (call : ClientCall μ) : μ := call.response_1.getD call.response

/-- The frame is the response to a call that waits, without an error and with a body that is none of
its type. -/
def Callers.Unparsable (pb : Protobuf δ μ) (s : Callers ℕ μ) (head body : List UInt8) : Prop :=
  ∃ k, s.waitResultCoMap (UInt64.ofNat (field head 4 8)) = some k ∧
    (s.calls k).expireTime = UInt64.ofNat (field head 12 8) ∧
    UInt32.ofNat (field head 20 4) = 0 ∧
    pb.parseFromArray (pb.descriptor (s.calls k).target) body = none

theorem ClientCall.receive_eq_none_iff (pb : Protobuf δ μ) {call : ClientCall μ}
    (hone : call.controller_1 = none) (errorCode : UInt32) (body : List UInt8) :
    call.receive pb errorCode body = none ↔
      errorCode = 0 ∧ pb.parseFromArray (pb.descriptor call.target) body = none := by
  unfold receive target
  by_cases hcode : errorCode ≠ 0
  · rw [if_pos hcode, if_neg (not_not.2 hone)]
    constructor
    · intro h
      split_ifs at h
    · rintro ⟨hzero, -⟩
      exact absurd hzero hcode
  · rw [if_neg hcode]
    cases call.response_1 <;> simp [not_not.1 hcode]

section Client

variable {pb : Protobuf δ μ} {s s' : Callers ℕ μ} {head body : List UInt8}

theorem RpcClient.decode_outcome (h : RpcClient.decode pb s head body = some s') :
    s' = s ∨ ∃ k call, s.waitResultCoMap (UInt64.ofNat (field head 4 8)) = some k ∧
      (s.calls k).receive pb (UInt32.ofNat (field head 20 4)) body = some call ∧
      s' = { s with
        calls := update s.calls k call
        waitResultCoMap :=
          update s.waitResultCoMap (ofNat (field head 4 8)) none
        waitResumeQueue :=
          s.waitResumeQueue ++ [⟨call.co, ofNat (field head 12 8), 0⟩] } := by
  unfold RpcClient.decode at h
  dsimp only at h
  split_ifs at h
  cases hk : s.waitResultCoMap (ofNat (field head 4 8)) with
  | none =>
    rw [hk] at h
    exact .inl (some.inj h).symm
  | some k =>
    rw [hk] at h
    dsimp only at h
    split_ifs at h
    · exact .inl (some.inj h).symm
    · obtain ⟨call, hcall, rfl⟩ := map_eq_some_iff.1 h
      exact .inr ⟨k, call, rfl, hcall, rfl⟩

/-- **A response fails an assertion if it cannot be parsed,** and only then. -/
theorem RpcClient.decode_eq_none_iff (hs : s.Pending) (hsize : field head 0 4 = body.length) :
    RpcClient.decode pb s head body = none ↔ s.Unparsable pb head body := by
  unfold RpcClient.decode Callers.Unparsable
  rw [if_neg (not_not.2 hsize)]
  cases hk : s.waitResultCoMap (ofNat (field head 4 8)) with
  | none =>
    constructor
    · nofun
    · rintro ⟨k, hsome, -⟩
      cases hsome
  | some k =>
    dsimp only
    by_cases htime : (s.calls k).expireTime = ofNat (field head 12 8)
    · rw [if_neg (not_not.2 htime), map_eq_none_iff, receive_eq_none_iff pb (hs _ _ hk).2]
      constructor
      · intro h
        exact ⟨k, rfl, htime, h⟩
      · rintro ⟨k', hsome, -, h⟩
        rw [some.inj hsome]
        exact h
    · rw [if_pos htime]
      constructor
      · nofun
      · rintro ⟨k', hsome, htime', -⟩
        rw [← some.inj hsome] at htime'
        exact absurd htime' htime

theorem clientDecode_keeps : (clientDecode pb).Keeps Callers.Pending := by
  intro s head body s' task hs h
  obtain ⟨s₁, hdec, heq⟩ := map_eq_some_iff.1 h
  obtain rfl := (Prod.mk.inj heq).1
  rcases RpcClient.decode_outcome hdec with rfl | ⟨k, call, hk, hcall, rfl⟩
  · exact hs
  · intro co j hj
    -- the entry of this call was erased, so another one is looked at, of another task
    have hentry : update s.waitResultCoMap (ofNat (field head 4 8)) none co = some j := hj
    change (update s.calls k call j).co = co ∧ (update s.calls k call j).controller_1 = none
    by_cases hco : co = ofNat (field head 4 8)
    · subst hco
      rw [update_self] at hentry
      cases hentry
    · rw [update_of_ne hco] at hentry
      have hjk : j ≠ k := by
        rintro rfl
        exact hco ((hs co j hentry).1.symm.trans (hs _ j hk).1)
      rw [update_of_ne hjk]
      exact hs co j hentry

theorem Callers.Pending.enter (hs : s.Pending) {k : ℕ} (hk : ∀ co, s.waitResultCoMap co ≠ some k)
    (co expireTime : UInt64) (controller : Controller ErrorText) (response : μ) :
    (s.enter k (ClientCall.new pb co expireTime controller response)).Pending := by
  intro co' j hj
  have hcalls : (s.enter k (new pb co expireTime controller response)).calls =
      update s.calls k (new pb co expireTime controller response) := rfl
  have hentry : update s.waitResultCoMap co (some k) co' = some j := hj
  rw [hcalls]
  by_cases hco : co' = co
  · subst hco
    rw [update_self] at hentry
    cases hentry
    rw [update_self]
    exact ⟨rfl, rfl⟩
  · rw [update_of_ne hco] at hentry
    have hjk : j ≠ k := by
      rintro rfl
      exact hk co' hentry
    rw [update_of_ne hjk]
    exact hs co' j hentry

end Client

end Rpc
namespace Io

open Corpc.Basis Wire Pipeline Message Rpc Function

/-- A run that fails an assertion fails it at a frame with `P`, the last one handed to the
decoder. -/
def AbortsOnlyAt {κ τ σ : Type} (log : σ → Log κ τ) (P : κ → List UInt8 → List UInt8 → Prop)
    (x : Flow Exit σ) : Prop :=
  ∀ s, x = .stop .aborted s →
    ∃ head body, (log s).calls.getLast? = some (head, body) ∧ P (log s).conn head body

theorem AbortsOnlyAt.of_all {κ τ σ : Type} {dec : DecodeFunction κ τ} {log : σ → Log κ τ}
    {P Q : κ → List UInt8 → List UInt8 → Prop} {I : σ → Prop} {x : Flow Exit σ}
    (hall : x.All I fun r s => r = .aborted → (log s).FailsAt dec P)
    (hPQ : ∀ c head body, dec.decode c head body = none → P c head body → Q c head body) :
    AbortsOnlyAt log Q x := by
  rintro s rfl
  obtain ⟨head, body, hlast, hnone, hP⟩ := hall rfl
  exact ⟨head, body, hlast, hPQ _ _ _ hnone hP⟩

variable {δ σ μ : Type}

structure MessageAsserts (μ : Type) : Prop where
  /-- The frames that fail the assertion are those with an unexpected body. -/
  exact_at : ∀ mtime (conn : Message.Connection μ) head body,
    Message.decode mtime conn head body = none ↔ UnexpectedBody conn head body
  /-- Every other frame is a system message, or leads to a task or to a decode error. -/
  outcome : ∀ mtime (conn conn' : Message.Connection μ) head body task,
    Message.decode mtime conn head body = some (conn', task) →
      headType head < 0 ∨ task.isSome = true ∨ conn'.decodeError = true
  tcp : ∀ cfg (c : ℕ × Message.Connection μ) inputs,
    AbortsOnlyAt TcpPipeline.log (fun c => UnexpectedBody c.2)
      (feed (TcpPipeline.receive cfg messageDecode) (.new cfg c) inputs)
  kcp : ∀ cfg (c : ℕ × Message.Connection μ) inputs,
    AbortsOnlyAt (fun k => k.pipe.log) (fun c => UnexpectedBody c.2)
      (feed (KcpPipeline.receive cfg messageDecode) (.new cfg c) inputs)
  udp : ∀ headSize maxBodySize (c : ℕ × Message.Connection μ) inputs,
    AbortsOnlyAt UdpPipeline.log (fun c => UnexpectedBody c.2)
      (feed (UdpPipeline.receive headSize messageDecode) (.new headSize maxBodySize c) inputs)
  /-- Such a frame does fail it, wherever a stream has come to the end of a frame. -/
  reached : ∀ cfg (p : TcpPipeline (ℕ × Message.Connection μ) (MessageWorkerTask μ)) log frame,
    p.Refines cfg ⟨[], log⟩ → Framed cfg frame →
      ((p.upflow cfg messageDecode (frame.1 ++ frame.2)).reason = some .aborted ↔
        UnexpectedBody log.conn.2 frame.1 frame.2)

theorem messageDecode_eq_none_iff {c : ℕ × Message.Connection μ} {head body : List UInt8} :
    messageDecode.decode c head body = none ↔ UnexpectedBody c.2 head body :=
  Option.map_eq_none_iff.trans (decode_eq_none_iff c.1)

theorem messageAsserts (μ : Type) : MessageAsserts μ := by
  have hkeeps : (messageDecode (μ := μ)).Keeps fun _ => True := fun _ _ _ _ _ _ _ => trivial
  have hinputs : ∀ {β : Type} (i : Input (ℕ × Message.Connection μ) β), i.Keeps fun _ => True := by
    intro β i
    cases i with
    | data x | change conn => trivial
  exact {
    exact_at := fun mtime _ _ _ => decode_eq_none_iff mtime
    outcome := fun _ _ _ _ _ _ h => Message.decode_outcome h
    tcp := fun _ _ _ => .of_all (TcpPipeline.failsAt hkeeps trivial fun i _ => hinputs i)
      fun _ _ _ hnone _ => messageDecode_eq_none_iff.1 hnone
    kcp := fun _ _ _ => .of_all (KcpPipeline.failsAt hkeeps trivial fun i _ => hinputs i)
      fun _ _ _ hnone _ => messageDecode_eq_none_iff.1 hnone
    udp := fun _ _ _ _ => .of_all (UdpPipeline.failsAt hkeeps trivial _ _ fun i _ => hinputs i)
      fun _ _ _ hnone _ => messageDecode_eq_none_iff.1 hnone
    reached := fun _ _ _ _ hp hf =>
      (TcpPipeline.aborted_iff hp hf).trans messageDecode_eq_none_iff }

structure ClientAsserts (pb : Protobuf δ μ) : Prop where
  /-- The frames that fail an assertion are the responses that cannot be parsed. -/
  exact_at : ∀ (s : Callers ℕ μ) head body, s.Pending → field head 0 4 = body.length →
    (RpcClient.decode pb s head body = none ↔ s.Unparsable pb head body)
  /-- Every other frame is ignored, or completes the call that waits for it and resumes it. -/
  outcome : ∀ (s s' : Callers ℕ μ) head body, RpcClient.decode pb s head body = some s' →
    s' = s ∨ ∃ k call, s.waitResultCoMap (UInt64.ofNat (field head 4 8)) = some k ∧
      s'.calls k = call ∧ s'.waitResumeQueue =
        s.waitResumeQueue ++ [⟨call.co, UInt64.ofNat (field head 12 8), 0⟩]
  tcp : ∀ (s : Callers ℕ μ) inputs, s.Pending → (∀ i ∈ inputs, i.Keeps Callers.Pending) →
    AbortsOnlyAt TcpPipeline.log (Callers.Unparsable pb)
      (feed (TcpPipeline.receive responseConfig (clientDecode pb)) (.new responseConfig s) inputs)
  reached : ∀ (p : TcpPipeline (Callers ℕ μ) Unit) log frame,
    p.Refines responseConfig ⟨[], log⟩ → Framed responseConfig frame → log.conn.Pending →
      ((p.upflow responseConfig (clientDecode pb) (frame.1 ++ frame.2)).reason = some .aborted ↔
        log.conn.Unparsable pb frame.1 frame.2)

theorem clientAsserts (pb : Protobuf δ μ) : ClientAsserts pb where
  exact_at := fun _ _ _ hs hsize => RpcClient.decode_eq_none_iff hs hsize
  outcome := by
    intro s s' head body h
    rcases RpcClient.decode_outcome h with rfl | ⟨k, call, hk, -, rfl⟩
    · exact .inl rfl
    · exact .inr ⟨k, call, hk, update_self .., rfl⟩
  tcp := by
    intro s inputs hs hinputs
    refine .of_all (TcpPipeline.failsAt clientDecode_keeps hs hinputs) ?_
    rintro c head body hnone ⟨hc, hsize⟩
    -- the size in the head is that of the body, by the pipeline
    exact (RpcClient.decode_eq_none_iff hc hsize.symm).1 (Option.map_eq_none_iff.1 hnone)
  reached := by
    intro p log frame hp hf hs
    refine (TcpPipeline.aborted_iff hp hf).trans (Option.map_eq_none_iff.trans ?_)
    exact RpcClient.decode_eq_none_iff hs hf.readSize

/-- `RpcServer::decode` fails no assertion, behind any pipeline. -/
structure ServerAsserts (pb : Protobuf δ μ) (server : RpcServer σ δ) : Prop where
  tcp : ∀ cfg inputs, (feed (TcpPipeline.receive cfg (serverDecode pb server)) (.new cfg ())
    inputs).reason ≠ some .aborted
  kcp : ∀ cfg inputs, (feed (KcpPipeline.receive cfg (serverDecode pb server)) (.new cfg ())
    inputs).reason ≠ some .aborted
  udp : ∀ headSize maxBodySize inputs, (feed (UdpPipeline.receive headSize (serverDecode pb server))
    (.new headSize maxBodySize ()) inputs).reason ≠ some .aborted

theorem reason_ne_aborted {κ τ σ : Type} {dec : DecodeFunction κ τ} {log : σ → Log κ τ}
    {P : κ → List UInt8 → List UInt8 → Prop} {I : σ → Prop} {x : Flow Exit σ}
    (hall : x.All I fun r s => r = .aborted → (log s).FailsAt dec P)
    (hdec : ∀ c head body, dec.decode c head body ≠ none) : x.reason ≠ some .aborted := by
  intro hr
  cases x with
  | more s => cases hr
  | stop r s =>
    obtain ⟨head, body, -, hnone, -⟩ := hall (Option.some.inj hr)
    exact hdec _ _ _ hnone

theorem serverAsserts (pb : Protobuf δ μ) (server : RpcServer σ δ) : ServerAsserts pb server := by
  have hkeeps : (serverDecode pb server).Keeps fun _ => True := fun _ _ _ _ _ _ _ => trivial
  have hinputs : ∀ {β : Type} (i : Input Unit β), i.Keeps fun _ => True := by
    intro β i
    cases i with
    | data x | change conn => trivial
  have hdec : ∀ c head body, (serverDecode pb server).decode c head body ≠ none := nofun
  exact {
    tcp := fun _ _ => reason_ne_aborted
      (TcpPipeline.failsAt hkeeps trivial fun i _ => hinputs i) hdec
    kcp := fun _ _ => reason_ne_aborted
      (KcpPipeline.failsAt hkeeps trivial fun i _ => hinputs i) hdec
    udp := fun _ _ _ => reason_ne_aborted
      (UdpPipeline.failsAt hkeeps trivial _ _ fun i _ => hinputs i) hdec }

/-- **A peer can trigger two assertions**: with a body for a message that was registered without a
prototype, and with a response that cannot be parsed. -/
theorem asserts_only_at (pb : Protobuf δ μ) (server : RpcServer σ δ) :
    MessageAsserts μ ∧ ServerAsserts pb server ∧ ClientAsserts pb :=
  ⟨messageAsserts μ, serverAsserts pb server, clientAsserts pb⟩

def signalTerminal : MessageTerminal Unit := ⟨false, false, false, [(1, ⟨none, false⟩)], false⟩

def signalWithBody : List UInt8 × List UInt8 := (encodeHead 1 1 0 0 0 0 0, [0])

def noFields : Protobuf Unit Unit where
  descriptor := id
  new := id
  serialize := fun _ => []
  parseFromArray := fun _ bytes => if bytes = [] then some () else none
  mergeFrom := fun _ _ => ()
  descriptor_new := fun _ => rfl
  parse_serialize := fun _ => rfl
  mergeFrom_new := fun _ => rfl

def waitingCall : ClientCall Unit := .new noFields 7 0 .reset ()

def noCalls : Callers ℕ Unit := ⟨fun _ => waitingCall, fun _ => none, fun _ => none, [], []⟩

theorem noCalls_pending : noCalls.Pending := nofun

def responseWithBody : List UInt8 × List UInt8 :=
  (responseHead ⟨7, 0, .reset, ⟨[0], 1⟩⟩, [0])

/-- One byte too many: a message of 23 bytes ends a message server, and a response of 25 bytes an
RPC client that waits for it. -/
theorem unexpected_body_aborts :
    (TcpPipeline.upflow messageConfig messageDecode
      (.new messageConfig (0, buildConnection signalTerminal none))
      (signalWithBody.1 ++ signalWithBody.2)).reason = some .aborted ∧
    (TcpPipeline.upflow responseConfig (clientDecode noFields)
      (.new responseConfig (noCalls.enter 0 waitingCall))
      (responseWithBody.1 ++ responseWithBody.2)).reason = some .aborted := by
  constructor
  · have hframed : Framed messageConfig signalWithBody := ⟨by decide, by decide, by decide⟩
    refine (TcpPipeline.aborted_iff (TcpPipeline.refines_new _ _) hframed).2 ?_
    rfl
  · have hframed : Framed responseConfig responseWithBody := ⟨by decide, by decide, by decide⟩
    refine (TcpPipeline.aborted_iff (TcpPipeline.refines_new _ _) hframed).2 ?_
    rfl

/-- A call is entered while half of its response is there. -/
theorem asserts_only_at_entered : (noCalls.enter 0 waitingCall).Pending ∧
    AbortsOnlyAt TcpPipeline.log (Callers.Unparsable noFields)
      (feed (TcpPipeline.receive responseConfig (clientDecode noFields))
        (.new responseConfig noCalls)
        [.data responseWithBody.1, .change (noCalls.enter 0 waitingCall),
          .data responseWithBody.2]) := by
  have hentered : (noCalls.enter 0 waitingCall).Pending :=
    Callers.Pending.enter noCalls_pending nofun 7 0 .reset ()
  refine ⟨hentered, (asserts_only_at noFields (σ := Unit) ⟨fun _ => none⟩).2.2.tcp _ _
    noCalls_pending ?_⟩
  simp [Input.Keeps, hentered]

end Io
end Corpc
