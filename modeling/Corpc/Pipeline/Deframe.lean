/-
# Deframing does not depend on the chunks

What a pipeline is for, one byte at a time: a `Deframer` keeps the bytes of the
frame that has begun, and with each byte looks whether they make a head, whether
the size in it is allowed, and whether the body is complete.
-/

import Corpc.Pipeline.Upflow

namespace Corpc.Pipeline

open Corpc.Basis Wire List TcpPipeline Flow

variable {κ τ : Type} {cfg : Config} {dec : DecodeFunction κ τ}

structure Deframer (κ τ : Type) where
  pending : List UInt8
  log : Log κ τ

def Deframer.check (cfg : Config) (dec : DecodeFunction κ τ) (d : Deframer κ τ) :
    Flow Exit (Deframer κ τ) :=
  if d.pending.length < cfg.headSize then .more d
  else if cfg.maxBodySize < cfg.readSize d.pending then .stop .refused d
  else if d.pending.length < cfg.headSize + cfg.readSize d.pending then .more d
  else
    match d.log.decode dec (d.pending.take cfg.headSize) (d.pending.drop cfg.headSize) with
    | .more log => .more ⟨[], log⟩
    | .stop r log => .stop r ⟨d.pending, log⟩

def Deframer.byte (cfg : Config) (dec : DecodeFunction κ τ) (d : Deframer κ τ) (b : UInt8) :
    Flow Exit (Deframer κ τ) :=
  Deframer.check cfg dec { d with pending := d.pending ++ [b] }

def Waits (cfg : Config) (pending : List UInt8) : Prop :=
  pending.length < cfg.headSize ∨ cfg.readSize pending ≤ cfg.maxBodySize ∧
      pending.length < cfg.headSize + cfg.readSize pending

theorem Deframer.check_of_waits {d : Deframer κ τ} (h : Waits cfg d.pending) :
    d.check cfg dec = .more d := by
  unfold Deframer.check
  rcases h with h | ⟨hle, hlt⟩
  · rw [if_pos h]
  · split_ifs with h1 h2
    · rfl
    · exact absurd hle (by omega)
    · rfl

theorem Config.headSize_pos (cfg : Config) : 0 < cfg.headSize := by
  have hin := cfg.size_in_head
  have hw : 0 < cfg.bodySizeType.width := by cases cfg.bodySizeType <;> decide
  omega

theorem Config.readSize_append {pre : List UInt8} (h : cfg.headSize ≤ pre.length)
    (rest : List UInt8) : cfg.readSize (pre ++ rest) = cfg.readSize pre :=
  field_append_of_le (cfg.size_in_head.trans h)

section

variable {d : Deframer κ τ} {bytes : List UInt8} (hne : bytes ≠ [])
include hne

theorem Deframer.feed_eq_check
    (hw : ∀ k, 0 < k → k < bytes.length → Waits cfg (d.pending ++ bytes.take k)) :
    feed (Deframer.byte cfg dec) d bytes =
      Deframer.check cfg dec { d with pending := d.pending ++ bytes } := by
  induction bytes generalizing d with
  | nil => exact absurd rfl hne
  | cons b rest ih =>
    rw [feed_cons, Deframer.byte]
    rcases rest with _ | ⟨b', rest⟩
    · simp
    · have hone : Waits cfg (d.pending ++ [b]) := by
        simpa using hw 1 Nat.one_pos (by simp)
      rw [Deframer.check_of_waits hone, more_bind, ih (by simp)]
      · simp
      · intro k hk hlt
        simpa using hw (k + 1) (by omega) (by simpa using hlt)

theorem Deframer.feed_head (h : d.pending.length + bytes.length ≤ cfg.headSize) :
    feed (Deframer.byte cfg dec) d bytes =
      Deframer.check cfg dec { d with pending := d.pending ++ bytes } := by
  refine Deframer.feed_eq_check hne fun k _ hk => .inl ?_
  simp only [length_append, length_take]
  omega

theorem Deframer.feed_body (hhead : cfg.headSize ≤ d.pending.length)
    (hmax : cfg.readSize d.pending ≤ cfg.maxBodySize)
    (h : d.pending.length + bytes.length ≤ cfg.headSize + cfg.readSize d.pending) :
    feed (Deframer.byte cfg dec) d bytes =
      Deframer.check cfg dec { d with pending := d.pending ++ bytes } := by
  refine Deframer.feed_eq_check hne fun k _ hk => .inr ?_
  rw [cfg.readSize_append hhead]
  refine ⟨hmax, ?_⟩
  simp only [length_append, length_take]
  omega

end

theorem memcpy_spec {dst src : List UInt8} {o : ℕ} (h : o + src.length ≤ dst.length) :
    ∃ dst', memcpy dst o src = some dst' ∧ dst'.length = dst.length ∧
      dst'.take (o + src.length) = dst.take o ++ src := by
  refine ⟨_, if_pos h, ?_, ?_⟩
  · simp only [length_append, length_take, length_drop]
    omega
  · refine take_left' ?_
    simp only [length_append, length_take]
    omega

structure TcpPipeline.Sized (cfg : Config) (p : TcpPipeline κ τ) : Prop where
  headBuf : p.headBuf.length = cfg.headSize
  bodyBuf : p.bodyBuf.length = cfg.maxBodySize

structure TcpPipeline.InBody (cfg : Config) (p : TcpPipeline κ τ) (d : Deframer κ τ) : Prop
    extends p.Sized cfg where
  log : d.log = p.log
  headNum : p.headNum = cfg.headSize
  bodySize : p.bodySize = cfg.readSize p.headBuf
  bodySize_le : p.bodySize ≤ cfg.maxBodySize
  bodyNum_le : p.bodyNum ≤ p.bodySize
  pending : d.pending = p.headBuf ++ p.bodyBuf.take p.bodyNum

/-- **Where a pipeline is between two calls:** inside the head, with the body
counters at zero, or inside a body that is not empty. -/
inductive TcpPipeline.Refines (cfg : Config) (p : TcpPipeline κ τ) (d : Deframer κ τ) : Prop
  | head (sized : p.Sized cfg) (log : d.log = p.log) (headNum : p.headNum < cfg.headSize)
      (bodySize : p.bodySize = 0) (bodyNum : p.bodyNum = 0)
      (pending : d.pending = p.headBuf.take p.headNum)
  | body (h : p.InBody cfg d) (bodyNum : p.bodyNum < p.bodySize)

/-- Where it is before the block that reads the size: the head has just become
complete, or the call began inside a body. -/
inductive TcpPipeline.AtSize (cfg : Config) (p : TcpPipeline κ τ) (d : Deframer κ τ) : Prop
  | fresh (sized : p.Sized cfg) (log : d.log = p.log) (headNum : p.headNum = cfg.headSize)
      (bodySize : p.bodySize = 0) (bodyNum : p.bodyNum = 0) (pending : d.pending = p.headBuf)
  | resumed (h : p.InBody cfg d) (bodyNum : p.bodyNum < p.bodySize)

variable {p : TcpPipeline κ τ} {d : Deframer κ τ} {buf : List UInt8}

theorem TcpPipeline.InBody.length_pending (h : p.InBody cfg d) :
    d.pending.length = cfg.headSize + p.bodyNum := by
  have hle := h.bodyNum_le.trans h.bodySize_le
  rw [h.pending, length_append, length_take, h.headBuf, h.bodyBuf]
  omega

theorem TcpPipeline.InBody.readSize (h : p.InBody cfg d) :
    cfg.readSize d.pending = p.bodySize := by
  rw [h.pending, cfg.readSize_append h.headBuf.ge, h.bodySize]

theorem TcpPipeline.InBody.waits (h : p.InBody cfg d) (hlt : p.bodyNum < p.bodySize) :
    Waits cfg d.pending := by
  refine .inr ⟨h.readSize ▸ h.bodySize_le, ?_⟩
  rw [h.length_pending, h.readSize]
  omega

theorem upflowStep_head (dec : DecodeFunction κ τ) (h : p.Refines cfg d) (hbuf : buf ≠ []) :
    (∃ p' d', upflowStep cfg dec ⟨.head, p, buf⟩ = .stop .returned ⟨.head, p', []⟩ ∧
        p'.Refines cfg d' ∧ feed (Deframer.byte cfg dec) d buf = .more d') ∨
      ∃ p' d' buf', upflowStep cfg dec ⟨.head, p, buf⟩ = .more ⟨.size, p', buf'⟩ ∧
        p'.AtSize cfg d' ∧
        feed (Deframer.byte cfg dec) d buf =
          (d'.check cfg dec).bind (feed (Deframer.byte cfg dec) · buf') ∧
        buf'.length ≤ buf.length ∧ (p'.bodySize = 0 → buf'.length < buf.length) := by
  cases h with
  | head hs hlog hnum hsize hbnum hpend =>
    have hlen : d.pending.length = p.headNum := by
      rw [hpend, length_take, hs.headBuf]
      omega
    by_cases hneed : cfg.headSize - p.headNum ≤ buf.length
    · have hbytes : (buf.take (cfg.headSize - p.headNum)).length = cfg.headSize - p.headNum := by
        rw [length_take]
        omega
      have hfit :
          p.headNum + (buf.take (cfg.headSize - p.headNum)).length ≤ p.headBuf.length := by
        rw [hbytes, hs.headBuf]
        omega
      obtain ⟨hb, hcpy, hl, htake⟩ := memcpy_spec hfit
      have hfull : hb = d.pending ++ buf.take (cfg.headSize - p.headNum) := by
        rw [hpend, ← htake, take_of_length_le]
        rw [hl, hs.headBuf, hbytes]
        omega
      refine .inr ⟨{ p with headBuf := hb, headNum := cfg.headSize },
        { d with pending := d.pending ++ buf.take (cfg.headSize - p.headNum) },
        buf.drop (cfg.headSize - p.headNum), ?_, ?_, ?_, ?_, fun _ => ?_⟩
      · simp [upflowStep, hbuf, hnum, hneed, hcpy]
      · exact .fresh ⟨hl.trans hs.headBuf, hs.bodyBuf⟩ hlog rfl hsize hbnum hfull.symm
      · conv_lhs => rw [← take_append_drop (cfg.headSize - p.headNum) buf, feed_append]
        rw [Deframer.feed_head (ne_nil_of_length_pos (by omega)) (by omega)]
      · simp
      · rw [length_drop]
        omega
    · have hfit : p.headNum + buf.length ≤ p.headBuf.length := by rw [hs.headBuf]; omega
      obtain ⟨hb, hcpy, hl, htake⟩ := memcpy_spec hfit
      refine .inl ⟨{ p with headBuf := hb, headNum := p.headNum + buf.length },
        { d with pending := d.pending ++ buf }, ?_, ?_, ?_⟩
      · simp [upflowStep, hbuf, hnum, hneed, hcpy]
      · exact .head ⟨hl.trans hs.headBuf, hs.bodyBuf⟩ hlog (by simp; omega) hsize hbnum
          (by rw [hpend]; exact htake.symm)
      · rw [Deframer.feed_head hbuf (by omega), Deframer.check_of_waits]
        exact .inl (by simp; omega)
  | body hin hlt =>
    refine .inr ⟨p, d, buf, ?_, .resumed hin hlt, ?_, le_rfl, fun h0 => by omega⟩
    · simp [upflowStep, hbuf, hin.headNum]
    · rw [Deframer.check_of_waits (hin.waits hlt), more_bind]

theorem upflowStep_size (dec : DecodeFunction κ τ) (buf : List UInt8) (h : p.AtSize cfg d) :
    (∃ p', upflowStep cfg dec ⟨.size, p, buf⟩ = .stop .refused ⟨.size, p', buf⟩ ∧
        p'.log = d.log ∧ d.check cfg dec = .stop .refused d) ∨
      ∃ p', upflowStep cfg dec ⟨.size, p, buf⟩ = .more ⟨.body, p', buf⟩ ∧ p'.InBody cfg d ∧
        (p.bodySize ≠ 0 → p'.bodyNum < p'.bodySize) := by
  cases h with
  | fresh hs hlog hhead hsize hnum hpend =>
    have hlen : d.pending.length = cfg.headSize := by rw [hpend, hs.headBuf]
    by_cases hbig : cfg.maxBodySize < cfg.readSize p.headBuf
    · refine .inl ⟨{ p with bodySize := cfg.readSize p.headBuf }, ?_, hlog.symm, ?_⟩
      · simp [upflowStep, hsize, hbig]
      · simp [Deframer.check, hpend, hs.headBuf, hbig]
    · refine .inr ⟨{ p with bodySize := cfg.readSize p.headBuf }, ?_, ?_, ?_⟩
      · simp [upflowStep, hsize, hbig]
      · exact ⟨⟨hs.headBuf, hs.bodyBuf⟩, hlog, hhead, rfl, by simpa using hbig, by simp [hnum],
          by simp [hpend, hnum]⟩
      · exact fun h0 => absurd hsize h0
  | resumed hin hlt =>
    have hpos : p.bodySize ≠ 0 := by omega
    exact .inr ⟨p, by simp [upflowStep, hpos], hin, fun _ => hlt⟩

theorem upflowStep_body (dec : DecodeFunction κ τ) (buf : List UInt8) (h : p.InBody cfg d) :
    (∃ p' d', upflowStep cfg dec ⟨.body, p, buf⟩ = .stop .returned ⟨.head, p', []⟩ ∧
        p'.Refines cfg d' ∧
        (d.check cfg dec).bind (feed (Deframer.byte cfg dec) · buf) = .more d') ∨
      ∃ p' d' buf', upflowStep cfg dec ⟨.body, p, buf⟩ = .more ⟨.decode, p', buf'⟩ ∧
        p'.InBody cfg d' ∧ p'.bodyNum = p'.bodySize ∧
        (d.check cfg dec).bind (feed (Deframer.byte cfg dec) · buf) =
          (d'.check cfg dec).bind (feed (Deframer.byte cfg dec) · buf') ∧
        buf'.length + (p.bodySize - p.bodyNum) = buf.length := by
  by_cases hlt : p.bodyNum < p.bodySize
  · have hlen := h.length_pending
    have hmax := h.bodySize_le
    have hread := h.readSize
    rw [Deframer.check_of_waits (h.waits hlt), more_bind]
    by_cases hneed : p.bodySize - p.bodyNum ≤ buf.length
    · have hbytes : (buf.take (p.bodySize - p.bodyNum)).length = p.bodySize - p.bodyNum := by
        rw [length_take]
        omega
      have hfit : p.bodyNum + (buf.take (p.bodySize - p.bodyNum)).length ≤ p.bodyBuf.length := by
        rw [hbytes, h.bodyBuf]
        omega
      obtain ⟨bb, hcpy, hl, htake⟩ := memcpy_spec hfit
      rw [hbytes, show p.bodyNum + (p.bodySize - p.bodyNum) = p.bodySize by omega] at htake
      refine .inr ⟨{ p with bodyBuf := bb, bodyNum := p.bodySize },
        { d with pending := d.pending ++ buf.take (p.bodySize - p.bodyNum) },
        buf.drop (p.bodySize - p.bodyNum), ?_, ?_, rfl, ?_, ?_⟩
      · simp [upflowStep, hlt, hneed, hcpy]
      · exact ⟨⟨h.headBuf, hl.trans h.bodyBuf⟩, h.log, h.headNum, h.bodySize, hmax, le_rfl,
          by simp only [htake, h.pending, append_assoc]⟩
      · conv_lhs => rw [← take_append_drop (p.bodySize - p.bodyNum) buf, feed_append]
        rw [Deframer.feed_body (ne_nil_of_length_pos (by omega)) (by omega) (by omega)
          (by omega)]
      · rw [length_drop]
        omega
    · have hfit : p.bodyNum + buf.length ≤ p.bodyBuf.length := by rw [h.bodyBuf]; omega
      obtain ⟨bb, hcpy, hl, htake⟩ := memcpy_spec hfit
      have hin : InBody cfg { p with bodyBuf := bb, bodyNum := p.bodyNum + buf.length }
          { d with pending := d.pending ++ buf } :=
        ⟨⟨h.headBuf, hl.trans h.bodyBuf⟩, h.log, h.headNum, h.bodySize, hmax, by simp; omega,
          by simp only [htake, h.pending, append_assoc]⟩
      refine .inl ⟨_, _, ?_, .body hin (by simp; omega), ?_⟩
      · simp [upflowStep, hlt, hneed, hcpy]
      · rcases eq_or_ne buf [] with rfl | hne
        · simp
        · rw [Deframer.feed_body hne (by omega) (by omega) (by omega)]
          exact Deframer.check_of_waits (hin.waits (by simp; omega))
  · have hfull : p.bodyNum = p.bodySize := le_antisymm h.bodyNum_le (not_lt.1 hlt)
    exact .inr ⟨p, d, buf, by simp [upflowStep, hlt], h, hfull, rfl, by omega⟩

theorem Log.reason_of_decode {log log' : Log κ τ} {head body : List UInt8} {r : Exit}
    (h : log.decode dec head body = .stop r log') : r = .aborted ∨ r = .refused := by
  unfold Log.decode at h
  split at h
  · exact .inl (Flow.stop.inj h).1.symm
  · split_ifs at h
    exact .inr (Flow.stop.inj h).1.symm

theorem upflowStep_decode (dec : DecodeFunction κ τ) (buf : List UInt8) (h : p.InBody cfg d)
    (hfull : p.bodyNum = p.bodySize) :
    (∃ r p' d', r ≠ .returned ∧ upflowStep cfg dec ⟨.decode, p, buf⟩ = .stop r ⟨.decode, p', buf⟩ ∧
        p'.log = d'.log ∧ d.check cfg dec = .stop r d') ∨
      ∃ p' d', upflowStep cfg dec ⟨.decode, p, buf⟩ = .more ⟨.head, p', buf⟩ ∧
        p'.Refines cfg d' ∧ d.check cfg dec = .more d' := by
  have hlen := h.length_pending
  have hmax := h.bodySize_le
  have hcheck : d.check cfg dec = match p.log.decode dec p.headBuf (p.bodyBuf.take p.bodySize) with
      | .more log => .more ⟨[], log⟩
      | .stop r log => .stop r ⟨d.pending, log⟩ := by
    unfold Deframer.check
    rw [if_neg (by omega), h.readSize, if_neg (by omega), if_neg (by omega), h.pending,
      take_left' h.headBuf, drop_left' h.headBuf, hfull, h.log]
  have hpos := cfg.headSize_pos
  set bb := dec.leaves p.log.conn p.headBuf (p.bodyBuf.take p.bodySize) ++
    p.bodyBuf.drop p.bodySize with hbb
  have hbuf : bb.length = cfg.maxBodySize := by
    rw [hbb, length_append, dec.length_leaves, ← length_append, take_append_drop, h.bodyBuf]
  rw [hcheck]
  cases hdec : p.log.decode dec p.headBuf (p.bodyBuf.take p.bodySize) with
  | more log =>
    refine .inr ⟨⟨p.headBuf, 0, bb, 0, 0, log⟩, ⟨[], log⟩, ?_, ?_, rfl⟩
    · simp [upflowStep, hdec, hbb]
    · exact .head ⟨h.headBuf, hbuf⟩ rfl hpos rfl rfl rfl
  | stop r log =>
    refine .inl ⟨r, { p with bodyBuf := bb, log := log }, ⟨d.pending, log⟩, ?_, ?_, rfl, rfl⟩
    · rcases Log.reason_of_decode hdec with rfl | rfl <;> simp
    · simp [upflowStep, hdec, hbb]

/-- **A call of `upflow` agrees with the deframer on its chunk**, and returns. -/
theorem upflow_agrees (h : p.Refines cfg d) (buf : List UInt8) :
    Flow.Rel (TcpPipeline.Refines cfg) (fun p d => p.log = d.log) (p.upflow cfg dec buf)
      (feed (Deframer.byte cfg dec) d buf) := by
  suffices hloop : ∀ n m p d buf, buf.length ≤ n → 4 * n + 4 ≤ m → p.Refines cfg d →
      Flow.Rel (TcpPipeline.Refines cfg) (fun p d => p.log = d.log)
        (closeCall (loop (upflowStep cfg dec) m ⟨.head, p, buf⟩))
        (feed (Deframer.byte cfg dec) d buf) from
    hloop buf.length _ p d buf le_rfl le_rfl h
  -- a pass through the loop takes at least one byte
  intro n
  induction n with
  | zero =>
    intro m p d buf hn hm h
    obtain ⟨m, rfl⟩ : ∃ k, m = k + 1 := ⟨m - 1, by omega⟩
    obtain rfl : buf = [] := eq_nil_of_length_eq_zero (by omega)
    exact .more h
  | succ n ih =>
    intro m p d buf hn hm h
    obtain ⟨m, rfl⟩ : ∃ k, m = k + 4 := ⟨m - 4, by omega⟩
    rcases eq_or_ne buf [] with rfl | hne
    · exact .more h
    rw [loop_succ]
    rcases upflowStep_head dec h hne with
      ⟨p₁, d₁, hs, h₁, hf⟩ | ⟨p₁, d₁, buf₁, hs, h₁, hf, hle, hprog⟩
    · rw [hs, hf]
      exact .more h₁
    rw [hs, hf, more_bind, loop_succ]
    rcases upflowStep_size dec buf₁ h₁ with
      ⟨p₂, hs, hlog, hf⟩ | ⟨p₂, hs, h₂, hprog₂⟩
    · rw [hs, hf]
      exact .stop hlog
    rw [hs, more_bind, loop_succ]
    rcases upflowStep_body dec buf₁ h₂ with
      ⟨p₃, d₃, hs, h₃, hf⟩ | ⟨p₃, d₃, buf₃, hs, h₃, hfull, hf, hle₃⟩
    · rw [hs, hf]
      exact .more h₃
    rw [hs, hf, more_bind, loop_succ]
    rcases upflowStep_decode dec buf₃ h₃ hfull with
      ⟨r, p₄, d₄, hr, hs, hlog, hf⟩ | ⟨p₄, d₄, hs, h₄, hf⟩
    · rw [hs, hf]
      cases r <;> first | exact absurd rfl hr | exact .stop hlog
    rw [hs, hf, more_bind, more_bind]
    refine ih m p₄ d₄ buf₃ ?_ (by omega) h₄
    by_cases h0 : p₁.bodySize = 0
    · have := hprog h0
      omega
    · have := hprog₂ h0
      omega

structure TcpPipeline.Bounded (cfg : Config) (p : TcpPipeline κ τ) : Prop
    extends p.Sized cfg where
  headNum : p.headNum ≤ cfg.headSize
  bodyNum : p.bodyNum ≤ p.bodySize
  bodySize : p.bodySize ≤ cfg.maxBodySize

theorem TcpPipeline.Refines.bounded (h : p.Refines cfg d) : p.Bounded cfg := by
  cases h with
  | head hs hlog hnum hsize hbnum hpend => exact ⟨hs, hnum.le, by omega, by omega⟩
  | body hin hlt => exact ⟨hin.toSized, hin.headNum.le, hin.bodyNum_le, hin.bodySize_le⟩

theorem length_of_memcpy {dst src dst' : List UInt8} {o : ℕ} (h : memcpy dst o src = some dst') :
    dst'.length = dst.length := by
  obtain ⟨hfit, rfl⟩ := Option.ite_some_none_eq_some.1 h
  simp only [length_append, length_take, length_drop]
  omega

theorem lt_of_memcpy_none {dst src : List UInt8} {o : ℕ} (h : memcpy dst o src = none) :
    dst.length < o + src.length := by
  unfold memcpy at h
  split_ifs at h with hfit
  omega

def TcpPipeline.Stopped (cfg : Config) (r : Exit) (p : TcpPipeline κ τ) : Prop :=
  r ≠ .overrun ∧ p.headNum ≤ cfg.headSize ∧ p.bodyNum ≤ p.bodySize

theorem upflowStep_bounded {c : Cursor κ τ} (h : c.pipe.Bounded cfg) :
    (upflowStep cfg dec c).All (fun c => c.pipe.Bounded cfg) fun r c => c.pipe.Stopped cfg r := by
  obtain ⟨block, p, buf⟩ := c
  obtain ⟨⟨hhb, hbb⟩, hh, hn, hsz⟩ := h
  dsimp only at hhb hbb hh hn hsz
  cases block with
  | head =>
    simp only [upflowStep]
    split_ifs with hnil hlt hneed
    · exact ⟨by simp, hh, hn⟩
    · split
      · rename_i hcpy
        have := lt_of_memcpy_none hcpy
        simp only [length_take] at this
        omega
      · rename_i b hcpy
        exact ⟨⟨(length_of_memcpy hcpy).trans hhb, hbb⟩, le_rfl, hn, hsz⟩
    · split
      · rename_i hcpy
        have := lt_of_memcpy_none hcpy
        omega
      · exact ⟨by simp, by dsimp only; omega, hn⟩
    · exact ⟨⟨hhb, hbb⟩, hh, hn, hsz⟩
  | size =>
    simp only [upflowStep]
    split_ifs with hzero hbig
    · exact ⟨by simp, hh, by dsimp only; omega⟩
    · exact ⟨⟨hhb, hbb⟩, hh, by dsimp only; omega, not_lt.1 hbig⟩
    · exact ⟨⟨hhb, hbb⟩, hh, hn, hsz⟩
  | body =>
    simp only [upflowStep]
    split_ifs with hlt hneed
    · split
      · rename_i hcpy
        have := lt_of_memcpy_none hcpy
        simp only [length_take] at this
        omega
      · rename_i b hcpy
        exact ⟨⟨hhb, (length_of_memcpy hcpy).trans hbb⟩, hh, le_rfl, hsz⟩
    · split
      · rename_i hcpy
        have := lt_of_memcpy_none hcpy
        omega
      · exact ⟨by simp, hh, by dsimp only; omega⟩
    · exact ⟨⟨hhb, hbb⟩, hh, hn, hsz⟩
  | decode =>
    simp only [upflowStep]
    split
    · rename_i r log hdec
      refine ⟨?_, hh, hn⟩
      rcases Log.reason_of_decode hdec with rfl | rfl <;> simp
    · refine ⟨⟨hhb, ?_⟩, Nat.zero_le _, le_rfl, Nat.zero_le _⟩
      rw [length_append, dec.length_leaves, ← length_append, take_append_drop, hbb]

def TcpPipeline.report (x : Flow Exit (TcpPipeline κ τ)) : Option Exit × Log κ τ :=
  (x.reason, x.state.log)

def KcpPipeline.report (x : Flow Exit (KcpPipeline κ τ)) : Option Exit × Log κ τ :=
  (x.reason, x.state.pipe.log)

def Deframer.report (x : Flow Exit (Deframer κ τ)) : Option Exit × Log κ τ :=
  (x.reason, x.state.log)

def KcpInput.data (input : KcpInput) : List UInt8 :=
  if input.isHandshake then [] else input.packages.flatten

theorem TcpPipeline.refines_new (cfg : Config) (conn : κ) :
    (TcpPipeline.new cfg conn : TcpPipeline κ τ).Refines cfg ⟨[], ⟨conn, [], []⟩⟩ :=
  .head ⟨by simp [new], by simp [new]⟩ rfl cfg.headSize_pos rfl rfl rfl

theorem TcpPipeline.Refines.log_eq (h : p.Refines cfg d) : p.log = d.log := by
  cases h with
  | head _ hlog => exact hlog.symm
  | body hin => exact hin.log.symm

theorem chunks_agree (cfg : Config) (dec : DecodeFunction κ τ) (conn : κ)
    (chunks : List (List UInt8)) :
    Flow.Rel (TcpPipeline.Refines cfg) (fun p d => p.log = d.log)
      (feed (TcpPipeline.upflow cfg dec) (.new cfg conn) chunks)
      (feed (Deframer.byte cfg dec) ⟨[], ⟨conn, [], []⟩⟩ chunks.flatten) := by
  have hagree : ∀ chunk ∈ chunks, ∀ (p : TcpPipeline κ τ) (d : Deframer κ τ), p.Refines cfg d →
      Flow.Rel (TcpPipeline.Refines cfg) (fun p d => p.log = d.log) (p.upflow cfg dec chunk)
        (feed (Deframer.byte cfg dec) d (id chunk)) := fun chunk _ p d h => upflow_agrees h chunk
  have hrel := feed_flatMap hagree (TcpPipeline.refines_new cfg conn)
  rwa [flatMap_id] at hrel

theorem report_chunks (cfg : Config) (dec : DecodeFunction κ τ) (conn : κ)
    (chunks : List (List UInt8)) :
    TcpPipeline.report (feed (TcpPipeline.upflow cfg dec) (.new cfg conn) chunks) =
      Deframer.report (feed (Deframer.byte cfg dec) ⟨[], ⟨conn, [], []⟩⟩ chunks.flatten) :=
  (chunks_agree cfg dec conn chunks).view (fun _ _ h => h.log_eq) (fun _ _ h => h)

/-- The KCP pipeline is in its place, and `dataBuf_` has its size. -/
def KcpPipeline.Refines (cfg : Config) (k : KcpPipeline κ τ) (d : Deframer κ τ) : Prop :=
  k.pipe.Refines cfg d ∧ k.dataBuf.length = maxKcpPackageSize

theorem package_agrees {k : KcpPipeline κ τ} (h : k.Refines cfg d) {package : List UInt8}
    (hlen : package.length ≤ maxKcpPackageSize) :
    Flow.Rel (KcpPipeline.Refines cfg) (fun k d => k.pipe.log = d.log) (k.package cfg dec package)
      (feed (Deframer.byte cfg dec) d package) := by
  have hfit : 0 + package.length ≤ k.dataBuf.length := by
    rw [h.2]
    omega
  obtain ⟨dataBuf, hcpy, hl, htake⟩ := memcpy_spec hfit
  have hdata : dataBuf.take package.length = package := by simpa using htake
  have hagree : Rel (Refines cfg) (fun p d => p.log = d.log)
      (k.pipe.upflow cfg dec package) (feed (Deframer.byte cfg dec) d package) :=
    upflow_agrees h.1 package
  unfold KcpPipeline.package
  rw [hcpy]
  simp only [hdata]
  revert hagree
  generalize k.pipe.upflow cfg dec package = x
  generalize feed (Deframer.byte cfg dec) d package = y
  rintro (hR | hS)
  · exact .more ⟨hR, hl.trans h.2⟩
  · exact .stop hS

def KcpInput.Proper (input : KcpInput) : Prop :=
  if input.isHandshake then input.replyFails = false
  else ∀ package ∈ input.packages, package.length ≤ maxKcpPackageSize

theorem kcpUpflow_agrees {k : KcpPipeline κ τ} (h : k.Refines cfg d) {input : KcpInput}
    (hp : input.Proper) :
    Flow.Rel (KcpPipeline.Refines cfg) (fun k d => k.pipe.log = d.log) (k.upflow cfg dec input)
      (feed (Deframer.byte cfg dec) d input.data) := by
  unfold KcpInput.Proper at hp
  unfold KcpPipeline.upflow KcpInput.data
  split_ifs at hp ⊢ with hs hr
  · rw [hp] at hr
    exact absurd hr Bool.false_ne_true
  · exact .more h
  · have hagree : ∀ package ∈ input.packages, ∀ (k : KcpPipeline κ τ) (d : Deframer κ τ),
        k.Refines cfg d → Rel (KcpPipeline.Refines cfg) (fun k d => k.pipe.log = d.log)
          (k.package cfg dec package) (feed (Deframer.byte cfg dec) d (id package)) :=
      fun package hmem k d hk => package_agrees hk (hp package hmem)
    have hrel := feed_flatMap hagree h
    rwa [flatMap_id] at hrel

theorem report_datagrams (cfg : Config) (dec : DecodeFunction κ τ) (conn : κ)
    {inputs : List KcpInput} (hp : ∀ input ∈ inputs, input.Proper) :
    KcpPipeline.report (feed (KcpPipeline.upflow cfg dec) (.new cfg conn) inputs) = Deframer.report
        (feed (Deframer.byte cfg dec) ⟨[], ⟨conn, [], []⟩⟩ (inputs.flatMap KcpInput.data)) := by
  have hnew : (KcpPipeline.new cfg conn : KcpPipeline κ τ).Refines cfg ⟨[], ⟨conn, [], []⟩⟩ :=
    ⟨TcpPipeline.refines_new cfg conn, by simp [KcpPipeline.new]⟩
  have hagree : ∀ input ∈ inputs, ∀ (k : KcpPipeline κ τ) (d : Deframer κ τ), k.Refines cfg d →
      Flow.Rel (KcpPipeline.Refines cfg) (fun k d => k.pipe.log = d.log) (k.upflow cfg dec input)
        (feed (Deframer.byte cfg dec) d input.data) :=
    fun input hmem k d hk => kcpUpflow_agrees hk (hp input hmem)
  exact (feed_flatMap hagree hnew).view (fun k d h => h.1.log_eq) (fun k d h => h)

theorem Deframer.reason_of_byte (d : Deframer κ τ) (b : UInt8) :
    ∀ r ∈ (d.byte cfg dec b).reason, r = .aborted ∨ r = .refused := by
  intro r hr
  unfold Deframer.byte Deframer.check at hr
  split_ifs at hr
  · simp [reason] at hr
  · exact .inr (by simpa [reason, eq_comm] using hr)
  · simp [reason] at hr
  · split at hr
    · simp [reason] at hr
    · rename_i r' log hdec
      obtain rfl : r' = r := by simpa [reason] using hr
      exact Log.reason_of_decode hdec

/-- **Deframing does not depend on the chunks**, and never leaves a buffer.  The KCP pipeline on the
packages of any datagrams does what the TCP pipeline does on their concatenation. -/
theorem upflow_chunking (cfg : Config) (dec : DecodeFunction κ τ) (conn : κ) :
    (∀ chunks₁ chunks₂ : List (List UInt8), chunks₁.flatten = chunks₂.flatten →
      TcpPipeline.report (feed (TcpPipeline.upflow cfg dec) (.new cfg conn) chunks₁) =
        TcpPipeline.report (feed (TcpPipeline.upflow cfg dec) (.new cfg conn) chunks₂)) ∧
    (∀ chunks : List (List UInt8),
      ∀ r ∈ (feed (TcpPipeline.upflow cfg dec) (.new cfg conn) chunks).reason,
        r = .aborted ∨ r = .refused) ∧
    (∀ (chunks : List (List UInt8)) (p : TcpPipeline κ τ) (chunk : List UInt8) (n : ℕ),
      feed (TcpPipeline.upflow cfg dec) (.new cfg conn) chunks = .more p →
      (loop (upflowStep cfg dec) n ⟨.head, p, chunk⟩).All (fun c => c.pipe.Bounded cfg)
        fun r c => c.pipe.Stopped cfg r) ∧
    (∀ inputs : List KcpInput, (∀ input ∈ inputs, input.Proper) →
      KcpPipeline.report (feed (KcpPipeline.upflow cfg dec) (.new cfg conn) inputs) =
        TcpPipeline.report
          (feed (TcpPipeline.upflow cfg dec) (.new cfg conn) [inputs.flatMap KcpInput.data])) := by
  refine ⟨fun chunks₁ chunks₂ h => ?_, fun chunks r hr => ?_, fun chunks p chunk n h => ?_,
    fun inputs hp => ?_⟩
  · rw [report_chunks, report_chunks, h]
  · have hreason : (feed (upflow cfg dec) (.new cfg conn) chunks).reason =
        (feed (Deframer.byte cfg dec) ⟨[], ⟨conn, [], []⟩⟩ chunks.flatten).reason :=
      congrArg Prod.fst (report_chunks cfg dec conn chunks)
    rw [hreason] at hr
    exact feed_reason Deframer.reason_of_byte _ _ r hr
  · have hrel := chunks_agree cfg dec conn chunks
    rw [h] at hrel
    generalize feed (Deframer.byte cfg dec) _ _ = y at hrel
    cases hrel with
    | more hR => exact loop_all (fun c hc => upflowStep_bounded hc) hR.bounded n
  · rw [report_datagrams cfg dec conn hp, report_chunks, flatten_singleton]

def tinyConfig : Config := ⟨2, 4, 0, .twoBytes, by decide, by decide, by decide⟩

def tinyDecoder : DecodeFunction Unit (List UInt8) :=
  ⟨fun _ _ body => some ((), some body), fun _ => false, fun _ _ body => body, fun _ _ _ => rfl⟩

/-- A frame with one byte, an empty one, and a head that asks for too much: cut in
the head and in the body, or not at all, or by packages with a handshake between
them. -/
theorem upflow_chunking_tiny :
    TcpPipeline.report (feed (TcpPipeline.upflow tinyConfig tinyDecoder) (.new tinyConfig ())
        [[0], [1], [7, 0, 0], [0, 5]]) =
        (some .refused, ⟨(), [([0, 1], [7]), ([0, 0], [])], [[7], []]⟩) ∧
      KcpPipeline.report (feed (KcpPipeline.upflow tinyConfig tinyDecoder) (.new tinyConfig ())
        [⟨[0, 0, 0, 0, 0], true, [[0, 1], [7, 0]]⟩, ⟨[0, 0, 0, 0], true, []⟩,
          ⟨[0, 0, 0, 0, 0], true, [[0, 0, 5]]⟩]) =
        (some .refused, ⟨(), [([0, 1], [7]), ([0, 0], [])], [[7], []]⟩) ∧
      ∀ n, (loop (upflowStep tinyConfig tinyDecoder) n ⟨.head, .new tinyConfig (), [0, 1, 7]⟩).All
        (fun c => c.pipe.Bounded tinyConfig) fun r c => c.pipe.Stopped tinyConfig r := by
  obtain ⟨hcut, -, hbounds, hkcp⟩ := upflow_chunking tinyConfig tinyDecoder ()
  refine ⟨?_, ?_, fun n => hbounds [] _ _ n rfl⟩
  · exact (hcut [[0], [1], [7, 0, 0], [0, 5]] [[0, 1, 7, 0, 0, 0, 5]] rfl).trans rfl
  · rw [hkcp _ (by simp [KcpInput.Proper, KcpInput.isHandshake, KcpInput.replyFails,
      udpHandshakeSize, maxKcpPackageSize])]
    rfl

end Corpc.Pipeline
