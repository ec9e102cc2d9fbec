/-
# Deframing: `TcpPipeline::upflow` and `KcpPipeline::upflow`

`corpc_io.cpp` and `corpc_kcp.cpp`.  A pipeline collects a head of fixed size, reads the size of the
body from it, collects the body and hands both to `decodeFun_`.

The body of the `while` loop is cut at its four blocks (`Block`), so that every
state in between can be looked at: `upflowStep` executes one block, `upflow` runs
blocks until the call returns.  A cursor `buf` stands for `buf + offset` up to
`size`.  The loop of `KcpPipeline::upflow` has the same four blocks over
`dataBuf_`, so it is the same definition here, once for each package.

A `memcpy` that leaves its object ends the run with `Exit.overrun`.
-/

import Corpc.Basis.BigEndian
import Corpc.Basis.Flow
import Corpc.Wire.Define

namespace Corpc.Pipeline

open Corpc.Basis Wire

/-- `MessagePipeline::SIZE_TYPE`. -/
inductive SizeType
  | twoBytes
  | fourBytes

def SizeType.width : SizeType → ℕ
  | .twoBytes => 2
  | .fourBytes => 4

/-- The arguments of a pipeline's constructor.  The sizes fit the `int` they are
compared as, and the size of the body lies inside the head. -/
structure Config where
  headSize : ℕ
  maxBodySize : ℕ
  bodySizeOffset : ℕ
  bodySizeType : SizeType
  headSize_lt : headSize < 2 ^ 31
  maxBodySize_lt : maxBodySize < 2 ^ 31
  size_in_head : bodySizeOffset + bodySizeType.width ≤ headSize

def Config.readSize (cfg : Config) (head : List UInt8) : ℕ :=
  field head cfg.bodySizeOffset cfg.bodySizeType.width

/-- `decodeFun_` on a connection of type `κ`: the connection afterwards and the task, or none where
an `assert` fails; `isDecodeError()`; and what is left in the body buffer, which a decoder may
decrypt in place. -/
structure DecodeFunction (κ τ : Type) where
  decode : κ → List UInt8 → List UInt8 → Option (κ × Option τ)
  isDecodeError : κ → Bool
  leaves : κ → List UInt8 → List UInt8 → List UInt8
  length_leaves : ∀ c head body, (leaves c head body).length = body.length

/-- A decoder that leaves the body as it is. -/
def DecodeFunction.readOnly (decode : κ → List UInt8 → List UInt8 → Option (κ × Option τ))
    (isDecodeError : κ → Bool) : DecodeFunction κ τ :=
  ⟨decode, isDecodeError, fun _ _ body => body, fun _ _ _ => rfl⟩

/-- How a call of `upflow` ends: it returns `true`, it returns `false`, an `assert`
of the decoder fails, a copy leaves its buffer, or it does not end. -/
inductive Exit
  | returned
  | refused
  | aborted
  | overrun
  | spinning
  deriving DecidableEq

/-- The connection, the calls of `decodeFun_` so far with their head and body, and
the tasks given to the worker. -/
structure Log (κ τ : Type) where
  conn : κ
  calls : List (List UInt8 × List UInt8)
  tasks : List τ

structure TcpPipeline (κ τ : Type) where
  headBuf : List UInt8
  headNum : ℕ
  bodyBuf : List UInt8
  bodyNum : ℕ
  bodySize : ℕ
  log : Log κ τ

variable {κ τ : Type}

def TcpPipeline.new (cfg : Config) (conn : κ) : TcpPipeline κ τ :=
  ⟨List.replicate cfg.headSize 0, 0, List.replicate cfg.maxBodySize 0, 0, 0, ⟨conn, [], []⟩⟩

/-- `memcpy(dst + o, src, ..)`, `none` where it would leave `dst`. -/
def memcpy (dst : List UInt8) (o : ℕ) (src : List UInt8) : Option (List UInt8) :=
  if o + src.length ≤ dst.length then
    some (dst.take o ++ src ++ dst.drop (o + src.length))
  else none

/-- The call of `decodeFun_`, the check of `isDecodeError()` and `addTask`. -/
def Log.decode (dec : DecodeFunction κ τ) (log : Log κ τ) (head body : List UInt8) :
    Flow Exit (Log κ τ) :=
  match dec.decode log.conn head body with
  | none => .stop .aborted { log with calls := log.calls ++ [(head, body)] }
  | some (conn, task) =>
    let log := ⟨conn, log.calls ++ [(head, body)], log.tasks⟩
    if dec.isDecodeError conn then .stop .refused log
    else .more { log with tasks := log.tasks ++ task.toList }

/-- The blocks of the loop: its test and the head, the size, the body, the
decoder. -/
inductive Block
  | head
  | size
  | body
  | decode

/-- Where a call of `upflow` is: the next block, the pipeline, and the bytes not
yet taken. -/
structure Cursor (κ τ : Type) where
  block : Block
  pipe : TcpPipeline κ τ
  buf : List UInt8

/-- One block of the loop of `upflow`. -/
def upflowStep (cfg : Config) (dec : DecodeFunction κ τ) (c : Cursor κ τ) :
    Flow Exit (Cursor κ τ) :=
  let p := c.pipe
  match c.block with
  | .head =>
    if c.buf = [] then .stop .returned c
    else if p.headNum < cfg.headSize then
      let needNum := cfg.headSize - p.headNum
      if needNum ≤ c.buf.length then
        match memcpy p.headBuf p.headNum (c.buf.take needNum) with
        | none => .stop .overrun c
        | some headBuf =>
          .more ⟨.size, { p with headBuf, headNum := cfg.headSize }, c.buf.drop needNum⟩
      else
        match memcpy p.headBuf p.headNum c.buf with
        | none => .stop .overrun c
        | some headBuf =>
          .stop .returned ⟨.head, { p with headBuf, headNum := p.headNum + c.buf.length }, []⟩
    else .more { c with block := .size }
  | .size =>
    if p.bodySize = 0 then
      let p := { p with bodySize := cfg.readSize p.headBuf }
      if cfg.maxBodySize < p.bodySize then .stop .refused { c with pipe := p }
      else .more ⟨.body, p, c.buf⟩
    else .more { c with block := .body }
  | .body =>
    if p.bodyNum < p.bodySize then
      let needNum := p.bodySize - p.bodyNum
      if needNum ≤ c.buf.length then
        match memcpy p.bodyBuf p.bodyNum (c.buf.take needNum) with
        | none => .stop .overrun c
        | some bodyBuf =>
          .more ⟨.decode, { p with bodyBuf, bodyNum := p.bodySize }, c.buf.drop needNum⟩
      else
        match memcpy p.bodyBuf p.bodyNum c.buf with
        | none => .stop .overrun c
        | some bodyBuf =>
          .stop .returned ⟨.head, { p with bodyBuf, bodyNum := p.bodyNum + c.buf.length }, []⟩
    else .more { c with block := .decode }
  | .decode =>
    let body := p.bodyBuf.take p.bodySize
    let bodyBuf := dec.leaves p.log.conn p.headBuf body ++ p.bodyBuf.drop p.bodySize
    match p.log.decode dec p.headBuf body with
    | .stop r log => .stop r { c with pipe := { p with bodyBuf, log } }
    | .more log =>
      .more ⟨.head, { p with bodyBuf, log, headNum := 0, bodyNum := 0, bodySize := 0 }, c.buf⟩

/-- The end of a call: the pipeline goes on if it returned `true`. -/
def closeCall : Flow Exit (Cursor κ τ) → Flow Exit (TcpPipeline κ τ)
  | .stop .returned c => .more c.pipe
  | .stop r c => .stop r c.pipe
  | .more c => .stop .spinning c.pipe

/-- `TcpPipeline::upflow(buf, size)`.  Four blocks for each byte, and four more,
are enough to return (`upflow_agrees`). -/
def TcpPipeline.upflow (cfg : Config) (dec : DecodeFunction κ τ) (p : TcpPipeline κ τ)
    (buf : List UInt8) : Flow Exit (TcpPipeline κ τ) :=
  closeCall (loop (upflowStep cfg dec) (4 * buf.length + 4) ⟨.head, p, buf⟩)

/-- `KcpPipeline`: the loop works on `dataBuf_`. -/
structure KcpPipeline (κ τ : Type) where
  pipe : TcpPipeline κ τ
  dataBuf : List UInt8

def KcpPipeline.new (cfg : Config) (conn : κ) : KcpPipeline κ τ :=
  ⟨.new cfg conn, List.replicate maxKcpPackageSize 0⟩

/-- A datagram given to `KcpPipeline::upflow`, whether the answer to a handshake
could be written, and the packages `kcpRecv` returns after it. -/
structure KcpInput where
  buf : List UInt8
  written : Bool
  packages : List (List UInt8)

def KcpInput.isHandshake (input : KcpInput) : Bool := input.buf.length == udpHandshakeSize

def KcpInput.replyFails (input : KcpInput) : Bool :=
  (UInt32.ofNat (field input.buf 0 4)).toInt32 == msgTypeUdpHandshake3 && !input.written

/-- One package: `kcpRecv` into `dataBuf_`, then the loop. -/
def KcpPipeline.package (cfg : Config) (dec : DecodeFunction κ τ) (k : KcpPipeline κ τ)
    (package : List UInt8) : Flow Exit (KcpPipeline κ τ) :=
  match memcpy k.dataBuf 0 package with
  | none => .stop .overrun k
  | some dataBuf =>
    match k.pipe.upflow cfg dec (dataBuf.take package.length) with
    | .more pipe => .more ⟨pipe, dataBuf⟩
    | .stop r pipe => .stop r ⟨pipe, dataBuf⟩

def KcpPipeline.upflow (cfg : Config) (dec : DecodeFunction κ τ) (k : KcpPipeline κ τ)
    (input : KcpInput) : Flow Exit (KcpPipeline κ τ) :=
  if input.isHandshake then
    if input.replyFails then .stop .refused k else .more k
  else feed (KcpPipeline.package cfg dec) k input.packages

end Corpc.Pipeline
