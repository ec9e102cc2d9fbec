/-
# What a pipeline keeps

A pipeline works on its log through `decodeFun_` alone.
-/

import Corpc.Pipeline.Channel
import Corpc.Pipeline.Datagram

namespace Corpc.Pipeline

open Corpc.Basis Wire

inductive Input (κ β : Type)
  | data (x : β)
  | change (conn : κ)

variable {κ τ β : Type}

def TcpPipeline.receive (cfg : Config) (dec : DecodeFunction κ τ) (p : TcpPipeline κ τ) :
    Input κ (List UInt8) → Flow Exit (TcpPipeline κ τ)
  | .data buf => p.upflow cfg dec buf
  | .change conn => .more (p.setConn conn)

def KcpPipeline.receive (cfg : Config) (dec : DecodeFunction κ τ) (k : KcpPipeline κ τ) :
    Input κ KcpInput → Flow Exit (KcpPipeline κ τ)
  | .data input => k.upflow cfg dec input
  | .change conn => .more { k with pipe := k.pipe.setConn conn }

def UdpPipeline.receive (headSize : ℕ) (dec : DecodeFunction κ τ) (p : UdpPipeline κ τ) :
    Input κ Datagram → Flow Exit (UdpPipeline κ τ)
  | .data input => p.upflow headSize dec input
  | .change conn => .more { p with log := { p.log with conn } }

/-- The changes of the connection keep `L`. -/
def KeptByChanges (L : Log κ τ → Prop) (inputs : List (Input κ β)) : Prop :=
  ∀ conn, .change conn ∈ inputs → ∀ log, L log → L { log with conn }

theorem Waits.length_le {cfg : Config} {pending : List UInt8} (h : Waits cfg pending) (b : UInt8)
    (hhead : cfg.headSize ≤ (pending ++ [b]).length) :
    (pending ++ [b]).length ≤ cfg.headSize + cfg.readSize (pending ++ [b]) := by
  rw [List.length_append, List.length_singleton] at hhead ⊢
  rcases h with h | ⟨-, h⟩
  · omega
  · by_cases hcut : cfg.headSize ≤ pending.length
    · rw [cfg.readSize_append hcut]
      omega
    · omega

theorem TcpPipeline.Refines.waits {cfg : Config} {p : TcpPipeline κ τ} {d : Deframer κ τ}
    (h : p.Refines cfg d) : Waits cfg d.pending := by
  cases h with
  | head hs hlog hnum hsize hbnum hpend =>
    refine .inl ?_
    rw [hpend, List.length_take]
    omega
  | body hin hlt => exact hin.waits hlt

section Rule

variable {cfg : Config} {dec : DecodeFunction κ τ} {L : Log κ τ → Prop} {J : Exit → Log κ τ → Prop}

section Stream

variable (hcall : ∀ log head body, body.length = cfg.readSize head → L log →
    (log.decode dec head body).All L J)
  (hstop : ∀ r log, r ≠ .aborted → L log → J r log)
include hcall hstop

theorem Deframer.byte_all {d : Deframer κ τ} (hw : Waits cfg d.pending) (h : L d.log) (b : UInt8) :
    (d.byte cfg dec b).All (fun d => Waits cfg d.pending ∧ L d.log) fun r d => J r d.log := by
  have hlen := hw.length_le b
  unfold Deframer.byte Deframer.check
  dsimp only
  generalize d.pending ++ [b] = pending at hlen ⊢
  split_ifs with hhead hmax hbody
  · exact ⟨.inl hhead, h⟩
  · exact hstop _ _ nofun h
  · exact ⟨.inr ⟨not_lt.1 hmax, hbody⟩, h⟩
  · -- the frame is complete
    have hlen := hlen (not_lt.1 hhead)
    have hread : cfg.readSize (pending.take cfg.headSize) = cfg.readSize pending := by
      have htake : cfg.headSize ≤ (pending.take cfg.headSize).length := by
        rw [List.length_take]
        omega
      conv_rhs => rw [← List.take_append_drop cfg.headSize pending]
      exact (cfg.readSize_append htake _).symm
    have hfits : (pending.drop cfg.headSize).length = cfg.readSize (pending.take cfg.headSize) := by
      rw [List.length_drop, hread]
      omega
    have hall := hcall d.log _ _ hfits h
    revert hall
    generalize d.log.decode dec _ _ = x
    intro hall
    cases x with
    | more log => exact ⟨.inl cfg.headSize_pos, hall⟩
    | stop r log => exact hall

theorem TcpPipeline.upflow_all {p : TcpPipeline κ τ} (hp : ∃ d, p.Refines cfg d) (h : L p.log)
    (buf : List UInt8) : (p.upflow cfg dec buf).All (fun p => (∃ d, p.Refines cfg d) ∧ L p.log)
      fun r p => J r p.log := by
  obtain ⟨d, hd⟩ := hp
  have hbytes : (feed (Deframer.byte cfg dec) d buf).All
      (fun d => Waits cfg d.pending ∧ L d.log) fun r d => J r d.log :=
    feed_all (fun b _ d hd => Deframer.byte_all hcall hstop hd.1 hd.2 b)
      ⟨hd.waits, hd.log_eq ▸ h⟩
  refine (upflow_agrees hd buf).all hbytes (fun p d hR h => ⟨⟨d, hR⟩, ?_⟩) fun r p d hS h => ?_
  · rw [hR.log_eq]
    exact h.2
  · rw [hS]
    exact h

theorem KcpPipeline.package_all {k : KcpPipeline κ τ} (hk : ∃ d, k.pipe.Refines cfg d)
    (h : L k.pipe.log) (package : List UInt8) :
    (k.package cfg dec package).All (fun k => (∃ d, k.pipe.Refines cfg d) ∧ L k.pipe.log)
      fun r k => J r k.pipe.log := by
  unfold KcpPipeline.package
  split
  · exact hstop _ _ nofun h
  · rename_i dataBuf hcpy
    have hall := TcpPipeline.upflow_all hcall hstop hk h (dataBuf.take package.length)
    revert hall
    generalize k.pipe.upflow cfg dec _ = x
    intro hall
    cases x with
    | more p | stop r p => exact hall

/-- **What the decoder keeps, a TCP pipeline keeps.** -/
theorem TcpPipeline.receive_all {c : κ} (hc : L ⟨c, [], []⟩)
    {inputs : List (Input κ (List UInt8))} (hinputs : KeptByChanges L inputs) :
    (feed (TcpPipeline.receive cfg dec) (.new cfg c) inputs).All (fun p => L p.log)
      fun r p => J r p.log := by
  have hall : (feed (TcpPipeline.receive cfg dec) (.new cfg c) inputs).All
      (fun p => (∃ d, p.Refines cfg d) ∧ L p.log) fun r p => J r p.log := by
    refine feed_all (fun i hi p hp => ?_) ⟨⟨_, TcpPipeline.refines_new cfg c⟩, hc⟩
    cases i with
    | data buf => exact TcpPipeline.upflow_all hcall hstop hp.1 hp.2 buf
    | change conn =>
      obtain ⟨⟨d, hd⟩, hL⟩ := hp
      exact ⟨⟨_, hd.setConn conn⟩, hinputs conn hi _ hL⟩
  exact hall.imp (fun _ h => h.2) fun _ _ => id

/-- **What the decoder keeps, a KCP pipeline keeps,** whatever packages `kcpRecv` returns. -/
theorem KcpPipeline.receive_all {c : κ} (hc : L ⟨c, [], []⟩)
    {inputs : List (Input κ KcpInput)} (hinputs : KeptByChanges L inputs) :
    (feed (KcpPipeline.receive cfg dec) (.new cfg c) inputs).All (fun k => L k.pipe.log)
      fun r k => J r k.pipe.log := by
  have hall : (feed (KcpPipeline.receive cfg dec) (.new cfg c) inputs).All
      (fun k => (∃ d, k.pipe.Refines cfg d) ∧ L k.pipe.log) fun r k => J r k.pipe.log := by
    refine feed_all (fun i hi k hk => ?_) ⟨⟨_, TcpPipeline.refines_new cfg c⟩, hc⟩
    cases i with
    | data input =>
      show (k.upflow cfg dec input).All _ _
      unfold KcpPipeline.upflow
      split_ifs
      · exact hstop _ _ nofun hk.2
      · exact hk
      · exact feed_all
          (fun package _ k hk => KcpPipeline.package_all hcall hstop hk.1 hk.2 package) hk
    | change conn =>
      obtain ⟨⟨d, hd⟩, hL⟩ := hk
      exact ⟨⟨_, hd.setConn conn⟩, hinputs conn hi _ hL⟩
  exact hall.imp (fun _ h => h.2) fun _ _ => id

end Stream

/-- **What the decoder keeps, a UDP pipeline keeps.** -/
theorem UdpPipeline.receive_all
    (hcall : ∀ log head body, L log → (log.decode dec head body).All L J)
    (hstop : ∀ r log, r ≠ .aborted → L log → J r log) (headSize maxBodySize : ℕ) {c : κ}
    (hc : L ⟨c, [], []⟩) {inputs : List (Input κ Datagram)} (hinputs : KeptByChanges L inputs) :
    (feed (UdpPipeline.receive headSize dec) (.new headSize maxBodySize c) inputs).All
      (fun p => L p.log) fun r p => J r p.log := by
  refine feed_all (fun i hi p hp => ?_) hc
  cases i with
  | data input =>
    show (p.upflow headSize dec input).All _ _
    unfold UdpPipeline.upflow
    split_ifs
    · exact hstop _ _ nofun hp
    · exact hp
    · exact hstop _ _ nofun hp
    · split
      · exact hstop _ _ nofun hp
      · rename_i headBuf hhead
        dsimp only
        split
        · exact hstop _ _ nofun hp
        · rename_i bodyBuf hbody
          have hall := hcall p.log headBuf (bodyBuf.take (input.buf.length - headSize)) hp
          revert hall
          generalize p.log.decode dec _ _ = x
          intro hall
          cases x with
          | more log | stop r log => exact hall
  | change conn => exact hinputs conn hi _ hp

end Rule

end Corpc.Pipeline
