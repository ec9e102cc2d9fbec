/-
# Where a pipeline fails an assertion

The assertions on the way of received bytes are in the decoders: a pipeline stops as `aborted` only
in a call of `decodeFun_`, with the connection as it found it (`Log.FailsAt`).
-/

import Corpc.Pipeline.Receive

namespace Corpc.Pipeline

open Corpc.Basis Wire

variable {κ τ β : Type}

/-- `I` is kept by the decoder. -/
def DecodeFunction.Keeps (dec : DecodeFunction κ τ) (I : κ → Prop) : Prop :=
  ∀ c head body c' task, I c → dec.decode c head body = some (c', task) → I c'

/-- Other routines leave the connection with `I`. -/
def Input.Keeps (I : κ → Prop) : Input κ β → Prop
  | .data _ => True
  | .change conn => I conn

/-- The last call of the decoder failed an assertion, at a frame with `P`. -/
def Log.FailsAt (dec : DecodeFunction κ τ) (P : κ → List UInt8 → List UInt8 → Prop)
    (log : Log κ τ) : Prop :=
  ∃ head body, log.calls.getLast? = some (head, body) ∧ dec.decode log.conn head body = none ∧
    P log.conn head body

variable {cfg : Config} {dec : DecodeFunction κ τ} {I : κ → Prop}

theorem Log.decode_all (hdec : dec.Keeps I) {P : κ → List UInt8 → List UInt8 → Prop}
    {log : Log κ τ} (h : I log.conn) {head body : List UInt8}
    (hP : I log.conn → P log.conn head body) :
    (log.decode dec head body).All (fun log => I log.conn)
      fun r log => r = .aborted → log.FailsAt dec P := by
  unfold Log.decode
  split
  · rename_i hnone
    exact fun _ => ⟨head, body, List.getLast?_concat .., hnone, hP h⟩
  · rename_i c task hsome
    dsimp only
    split
    · exact nofun
    · exact hdec _ _ _ _ _ h hsome

theorem keptByChanges {inputs : List (Input κ β)} (h : ∀ i ∈ inputs, i.Keeps I) :
    KeptByChanges (fun log : Log κ τ => I log.conn) inputs :=
  fun _ hconn _ _ => h _ hconn

def Fits (cfg : Config) (I : κ → Prop) (c : κ) (head body : List UInt8) : Prop :=
  I c ∧ body.length = cfg.readSize head

/-- **In every run of a TCP pipeline, an assertion fails in the decoder only,** at a frame that fits
its head. -/
theorem TcpPipeline.failsAt (hdec : dec.Keeps I) {c : κ} (hc : I c)
    {inputs : List (Input κ (List UInt8))} (hinputs : ∀ i ∈ inputs, i.Keeps I) :
    (feed (TcpPipeline.receive cfg dec) (.new cfg c) inputs).All (fun p => I p.log.conn)
      fun r p => r = .aborted → p.log.FailsAt dec (Fits cfg I) :=
  TcpPipeline.receive_all
    (fun _ _ _ hfits h => Log.decode_all hdec h fun hI => ⟨hI, hfits⟩)
    (fun _ _ hr _ h => absurd h hr) hc (keptByChanges hinputs)

theorem KcpPipeline.failsAt (hdec : dec.Keeps I) {c : κ} (hc : I c)
    {inputs : List (Input κ KcpInput)} (hinputs : ∀ i ∈ inputs, i.Keeps I) :
    (feed (KcpPipeline.receive cfg dec) (.new cfg c) inputs).All (fun k => I k.pipe.log.conn)
      fun r k => r = .aborted → k.pipe.log.FailsAt dec (Fits cfg I) :=
  KcpPipeline.receive_all
    (fun _ _ _ hfits h => Log.decode_all hdec h fun hI => ⟨hI, hfits⟩)
    (fun _ _ hr _ h => absurd h hr) hc (keptByChanges hinputs)

theorem UdpPipeline.failsAt (hdec : dec.Keeps I) {c : κ} (hc : I c) (headSize maxBodySize : ℕ)
    {inputs : List (Input κ Datagram)} (hinputs : ∀ i ∈ inputs, i.Keeps I) :
    (feed (UdpPipeline.receive headSize dec) (.new headSize maxBodySize c) inputs).All
      (fun p => I p.log.conn) fun r p => r = .aborted → p.log.FailsAt dec fun c _ _ => I c :=
  UdpPipeline.receive_all (fun _ _ _ h => Log.decode_all hdec h id)
    (fun _ _ hr _ h => absurd h hr) headSize maxBodySize hc (keptByChanges hinputs)

theorem TcpPipeline.aborted_iff {p : TcpPipeline κ τ} {log : Log κ τ} (h : p.Refines cfg ⟨[], log⟩)
    {frame : List UInt8 × List UInt8} (hf : Framed cfg frame) :
    (p.upflow cfg dec (frame.1 ++ frame.2)).reason = some .aborted ↔
      dec.decode log.conn frame.1 frame.2 = none := by
  have hreason : (p.upflow cfg dec (frame.1 ++ frame.2)).reason =
      (feed (Deframer.byte cfg dec) ⟨[], log⟩ (frame.1 ++ frame.2)).reason :=
    (upflow_agrees h (frame.1 ++ frame.2)).reason
  rw [hreason, Deframer.feed_framed hf, Deframer.check_framed hf]
  unfold Log.decode
  cases hdec : dec.decode log.conn frame.1 frame.2 with
  | none => exact ⟨fun _ => rfl, fun _ => rfl⟩
  | some r =>
    constructor
    · intro hr
      dsimp only at hr
      split_ifs at hr <;> cases hr
    · nofun

end Corpc.Pipeline
