/-
# Datagrams: `UdpPipeline::upflow`

`corpc_io.cpp`.  A datagram is one frame: the head, and everything after it as the body.
-/

import Corpc.Pipeline.Upflow

namespace Corpc.Pipeline

open Corpc.Basis Wire

structure UdpPipeline (κ τ : Type) where
  headBuf : List UInt8
  bodyBuf : List UInt8
  bodySize : ℕ
  log : Log κ τ

/-- A datagram given to `UdpPipeline::upflow`, and whether the answer to a handshake could be
written. -/
structure Datagram where
  buf : List UInt8
  written : Bool

def Datagram.isHandshake (input : Datagram) : Bool := input.buf.length == udpHandshakeSize

def Datagram.replyFails (input : Datagram) : Bool :=
  (UInt32.ofNat (field input.buf 0 4)).toInt32 == msgTypeUdpHandshake3 && !input.written

variable {κ τ : Type}

def UdpPipeline.new (headSize maxBodySize : ℕ) (conn : κ) : UdpPipeline κ τ :=
  ⟨List.replicate headSize 0, List.replicate maxBodySize 0, 0, ⟨conn, [], []⟩⟩

def UdpPipeline.upflow (headSize : ℕ) (dec : DecodeFunction κ τ) (p : UdpPipeline κ τ)
    (input : Datagram) : Flow Exit (UdpPipeline κ τ) :=
  if input.isHandshake then
    if input.replyFails then .stop .refused p else .more p
  else if input.buf.length < headSize then .stop .refused p
  else
    match memcpy p.headBuf 0 (input.buf.take headSize) with
    | none => .stop .overrun p
    | some headBuf =>
      let p := { p with headBuf, bodySize := input.buf.length - headSize }
      match memcpy p.bodyBuf 0 (input.buf.drop headSize) with
      | none => .stop .overrun p
      | some bodyBuf =>
        let body := bodyBuf.take p.bodySize
        let left := dec.leaves p.log.conn headBuf body ++ bodyBuf.drop p.bodySize
        match p.log.decode dec headBuf body with
        | .stop r log => .stop r { p with bodyBuf := left, log }
        | .more log => .more { p with bodyBuf := left, log }

end Corpc.Pipeline
