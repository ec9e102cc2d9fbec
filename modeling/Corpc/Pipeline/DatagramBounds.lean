/-
# Datagrams that are too long

`Receiver::connectionRoutine` in `corpc_io.cpp` reads up to `CORPC_MAX_BUFFER_SIZE` bytes and hands
them to the pipeline.  The pipelines of `UdpMessageServer` and `UdpMessageClient` have room for
bodies of 540 bytes.  `UdpPipeline::upflow` compares the size of a body with nothing.
-/

import Corpc.Pipeline.Deframe
import Corpc.Pipeline.Datagram

namespace Corpc.Pipeline

open Corpc.Basis Wire List

variable {κ τ : Type}

/-- What happens to `Receiver::connectionRoutine` on a UDP socket.  Meanwhile other routines change
what the decoder works on. -/
inductive UdpEvent (κ : Type)
  | datagram (input : Datagram)
  | failed (eagain : Bool)
  | change (conn : κ)

inductive Leave
  | read
  | upflow (r : Exit)
  deriving DecidableEq

structure UdpReceiver (κ τ : Type) where
  retryTimes : ℕ
  pipe : UdpPipeline κ τ

def UdpReceiver.new (headSize maxBodySize : ℕ) (conn : κ) : UdpReceiver κ τ :=
  ⟨0, .new headSize maxBodySize conn⟩

/-- What `read(fd, buf, CORPC_MAX_BUFFER_SIZE)` leaves of a datagram. -/
def Datagram.read (input : Datagram) : Datagram :=
  { input with buf := input.buf.take maxBufferSize }

/-- One round of the loop of `Receiver::connectionRoutine`. -/
def UdpReceiver.step (headSize : ℕ) (dec : DecodeFunction κ τ) (s : UdpReceiver κ τ) :
    UdpEvent κ → Flow Leave (UdpReceiver κ τ)
  | .datagram input =>
    if input.buf = [] then .stop .read s
    else
      match s.pipe.upflow headSize dec input.read with
      | .more pipe => .more { s with pipe }
      | .stop r pipe => .stop (.upflow r) { s with pipe }
  | .failed eagain =>
    if eagain && s.retryTimes < 5 then .more { s with retryTimes := s.retryTimes + 1 }
    else .stop .read s
  | .change conn => .more { s with pipe := { s.pipe with log := { s.pipe.log with conn } } }

/-- The body of a datagram that is not a handshake has more than `maxBodySize` bytes. -/
def Datagram.tooLarge (headSize maxBodySize : ℕ) (input : Datagram) : Bool :=
  !input.isHandshake && decide (headSize + maxBodySize < input.buf.length)

structure UdpPipeline.Sized (headSize maxBodySize : ℕ) (p : UdpPipeline κ τ) : Prop where
  headBuf : p.headBuf.length = headSize
  bodyBuf : p.bodyBuf.length = maxBodySize

section Bounds

variable {headSize maxBodySize : ℕ} {dec : DecodeFunction κ τ} {p : UdpPipeline κ τ}
  {input : Datagram}

theorem UdpPipeline.sized_new (headSize maxBodySize : ℕ) (conn : κ) :
    (UdpPipeline.new headSize maxBodySize conn : UdpPipeline κ τ).Sized headSize maxBodySize :=
  ⟨length_replicate, length_replicate⟩

theorem UdpPipeline.Sized.memcpy_head (h : p.Sized headSize maxBodySize)
    (hlen : headSize ≤ input.buf.length) :
    ∃ headBuf, memcpy p.headBuf 0 (input.buf.take headSize) = some headBuf ∧
      headBuf.length = headSize := by
  have hfit : 0 + (input.buf.take headSize).length ≤ p.headBuf.length := by
    rw [h.headBuf, length_take]
    omega
  obtain ⟨headBuf, hcpy, hl, -⟩ := memcpy_spec hfit
  exact ⟨headBuf, hcpy, hl.trans h.headBuf⟩

/-- **A body that is too large is copied over the end of `body_`.** -/
theorem UdpPipeline.Sized.overruns (dec : DecodeFunction κ τ) (h : p.Sized headSize maxBodySize)
    (hbig : input.tooLarge headSize maxBodySize = true) :
    (p.upflow headSize dec input).reason = some .overrun := by
  obtain ⟨hshake, hlen⟩ : input.isHandshake = false ∧
      headSize + maxBodySize < input.buf.length := by
    simpa [Datagram.tooLarge] using hbig
  obtain ⟨headBuf, hhead, -⟩ := h.memcpy_head (show headSize ≤ input.buf.length by omega)
  have hbody : memcpy p.bodyBuf 0 (input.buf.drop headSize) = none := by
    rw [memcpy, if_neg]
    rw [h.bodyBuf, length_drop]
    omega
  simp [UdpPipeline.upflow, hshake, show ¬input.buf.length < headSize by omega, hhead, hbody,
    Flow.reason]

theorem UdpPipeline.Sized.upflow (dec : DecodeFunction κ τ) (h : p.Sized headSize maxBodySize)
    (hfit : input.tooLarge headSize maxBodySize = false) :
    (p.upflow headSize dec input).All (·.Sized headSize maxBodySize) fun r _ => r ≠ .overrun := by
  unfold UdpPipeline.upflow
  split_ifs with hshake hreply hsmall
  · exact nofun
  · exact h
  · exact nofun
  · have hlen : input.buf.length ≤ headSize + maxBodySize := by
      simpa [Datagram.tooLarge, hshake] using hfit
    obtain ⟨headBuf, hhead, hl⟩ := h.memcpy_head (not_lt.1 hsmall)
    have hroom : 0 + (input.buf.drop headSize).length ≤ p.bodyBuf.length := by
      rw [h.bodyBuf, length_drop]
      omega
    obtain ⟨bodyBuf, hbody, hlb, -⟩ := memcpy_spec hroom
    simp only [hhead, hbody]
    -- the decoder works in place
    have hleft : (dec.leaves p.log.conn headBuf (bodyBuf.take (input.buf.length - headSize)) ++
        bodyBuf.drop (input.buf.length - headSize)).length = maxBodySize := by
      rw [length_append, dec.length_leaves, ← length_append, take_append_drop, hlb, h.bodyBuf]
    cases hdec : p.log.decode dec headBuf (bodyBuf.take (input.buf.length - headSize)) with
    | more log => exact ⟨hl, hleft⟩
    | stop r log =>
      rcases Log.reason_of_decode hdec with rfl | rfl
      · exact nofun
      · exact nofun

/-- **A datagram stays within `body_` or is refused exactly if it is not too large.** -/
theorem UdpPipeline.Sized.safe_iff (h : p.Sized headSize maxBodySize) :
    ((p.upflow headSize dec input).reason ≠ some .overrun ∧
        (input.tooLarge headSize maxBodySize = true →
          (p.upflow headSize dec input).reason = some .refused)) ↔
      input.tooLarge headSize maxBodySize = false := by
  cases hbig : input.tooLarge headSize maxBodySize with
  | true =>
    refine iff_of_false (fun hsafe => ?_) nofun
    exact hsafe.1 (h.overruns dec hbig)
  | false =>
    refine iff_of_true ⟨fun hr => ?_, nofun⟩ rfl
    have hall := h.upflow dec hbig
    revert hr hall
    generalize p.upflow headSize dec input = x
    intro hr hall
    cases x with
    | more p' => exact nomatch hr
    | stop r p' => exact hall (Option.some.inj hr)

end Bounds

section Run

variable {headSize maxBodySize : ℕ} {dec : DecodeFunction κ τ}

theorem UdpReceiver.step_sized {s : UdpReceiver κ τ} (h : s.pipe.Sized headSize maxBodySize)
    (e : UdpEvent κ) :
    (s.step headSize dec e).All (fun s => s.pipe.Sized headSize maxBodySize) fun r _ =>
      r = .upflow .overrun →
        ∃ input, e = .datagram input ∧ input.read.tooLarge headSize maxBodySize = true := by
  cases e with
  | datagram input =>
    simp only [UdpReceiver.step]
    split_ifs with hnil
    · exact nofun
    · cases hbig : input.read.tooLarge headSize maxBodySize with
      | true =>
        have hover := h.overruns dec hbig
        cases hu : s.pipe.upflow headSize dec input.read with
        | more pipe =>
          rw [hu] at hover
          exact nomatch hover
        | stop r pipe => exact fun _ => ⟨input, rfl, hbig⟩
      | false =>
        have hall := h.upflow dec hbig
        cases hu : s.pipe.upflow headSize dec input.read with
        | more pipe =>
          rw [hu] at hall
          exact hall
        | stop r pipe =>
          rw [hu] at hall
          exact fun hr => absurd (Leave.upflow.inj hr) hall
  | failed eagain =>
    simp only [UdpReceiver.step]
    split_ifs
    · exact h
    · exact nofun
  | change conn => exact ⟨h.headBuf, h.bodyBuf⟩

/-- **Bodies fit exactly up to `maxBodySize_`**, for a UDP pipeline of any sizes, with any
decoder. -/
theorem udp_body_fits_iff (headSize maxBodySize : ℕ) (dec : DecodeFunction κ τ) (conn : κ)
    (events : List (UdpEvent κ)) :
    (∀ s, feed (UdpReceiver.step headSize dec) (.new headSize maxBodySize conn) events = .more s →
      ∀ input : Datagram, 1 ≤ input.buf.length → input.buf.length ≤ maxBufferSize →
        (((s.pipe.upflow headSize dec input).reason ≠ some .overrun ∧
            (input.tooLarge headSize maxBodySize = true →
              (s.pipe.upflow headSize dec input).reason = some .refused)) ↔
          input.tooLarge headSize maxBodySize = false) ∧
        ((s.step headSize dec (.datagram input)).reason = some (.upflow .overrun) ↔
          input.tooLarge headSize maxBodySize = true)) ∧
    ((∀ input, .datagram input ∈ events → input.read.tooLarge headSize maxBodySize = false) →
      (feed (UdpReceiver.step headSize dec) (.new headSize maxBodySize conn) events).reason ≠
        some (.upflow .overrun)) := by
  have hnew : (UdpReceiver.new headSize maxBodySize conn : UdpReceiver κ τ).pipe.Sized headSize
      maxBodySize := UdpPipeline.sized_new headSize maxBodySize conn
  have hrun : (feed (UdpReceiver.step headSize dec) (.new headSize maxBodySize conn) events).All
      (fun s => s.pipe.Sized headSize maxBodySize) fun r _ => r = .upflow .overrun →
        ∃ input, .datagram input ∈ events ∧ input.read.tooLarge headSize maxBodySize = true := by
    refine feed_all (fun e he s hs => (UdpReceiver.step_sized hs e).imp (fun _ => id) ?_) hnew
    rintro r - hback hr
    obtain ⟨input, rfl, hbig⟩ := hback hr
    exact ⟨input, he, hbig⟩
  refine ⟨fun s hs input hpos hmax => ?_, fun hfit hr => ?_⟩
  · rw [hs] at hrun
    have hread : input.read = input := by
      rw [Datagram.read, take_of_length_le hmax]
    have hnil : input.buf ≠ [] := ne_nil_of_length_pos hpos
    refine ⟨UdpPipeline.Sized.safe_iff hrun, ?_⟩
    have hleave : (s.step headSize dec (.datagram input)).reason = some (.upflow .overrun) ↔
        (s.pipe.upflow headSize dec input).reason = some .overrun := by
      simp only [UdpReceiver.step, if_neg hnil, hread]
      cases s.pipe.upflow headSize dec input with
      | more pipe | stop r pipe => simp [Flow.reason]
    rw [hleave]
    cases hbig : input.tooLarge headSize maxBodySize with
    | true => simp [UdpPipeline.Sized.overruns dec hrun hbig]
    | false => simpa using ((UdpPipeline.Sized.safe_iff hrun).2 hbig).1
  · revert hrun hr
    generalize feed (UdpReceiver.step headSize dec) _ events = x
    intro hrun hr
    cases x with
    | more s => cases hr
    | stop r s =>
      obtain ⟨input, hmem, hbig⟩ := hrun (Option.some.inj hr)
      exact Bool.false_ne_true ((hfit input hmem).symm.trans hbig)

def anyDecoder : DecodeFunction Unit Unit :=
  .readOnly (fun _ _ _ => some ((), some ())) fun _ => false

/-- The pipeline of `UdpMessageServer` takes bodies up to 540 bytes after any of them, so up to
562 bytes in all. -/
theorem udp_body_fits_540 :
    ∃ s, feed (UdpReceiver.step messageHeadSize anyDecoder)
        (.new messageHeadSize maxUdpMessageSize ())
        [.datagram ⟨List.replicate 22 0, true⟩, .failed true,
          .datagram ⟨List.replicate 562 0, true⟩] = .more s ∧
      (s.pipe.upflow messageHeadSize anyDecoder ⟨List.replicate 562 0, true⟩).reason ≠
        some .overrun := by
  have hfirst : (feed (UdpReceiver.step messageHeadSize anyDecoder)
      (.new messageHeadSize maxUdpMessageSize ())
      [.datagram ⟨List.replicate 22 0, true⟩, .failed true,
        .datagram ⟨List.replicate 562 0, true⟩]).reason = none := by decide +kernel
  obtain ⟨s, hs⟩ : ∃ s, feed (UdpReceiver.step messageHeadSize anyDecoder)
      (.new messageHeadSize maxUdpMessageSize ())
      [.datagram ⟨List.replicate 22 0, true⟩, .failed true,
        .datagram ⟨List.replicate 562 0, true⟩] = .more s := by
    revert hfirst
    generalize feed (UdpReceiver.step messageHeadSize anyDecoder) _ _ = x
    intro hx
    cases x with
    | more s => exact ⟨s, rfl⟩
    | stop r s => exact nomatch hx
  have hiff := (udp_body_fits_iff messageHeadSize maxUdpMessageSize anyDecoder () _).1 s hs
    ⟨List.replicate 562 0, true⟩ (by decide +kernel) (by decide +kernel)
  exact ⟨s, hs, (hiff.1.2 (by decide +kernel)).1⟩

/-- **One byte more is written behind the end of `body_`**: a first datagram of 563 bytes, which the
server neither refuses nor cuts. -/
theorem udp_body_overruns_541 :
    (feed (UdpReceiver.step messageHeadSize anyDecoder)
      (.new messageHeadSize maxUdpMessageSize ())
      [.datagram ⟨List.replicate 563 0, true⟩]).reason = some (.upflow .overrun) := by
  decide +kernel

end Run

end Corpc.Pipeline
