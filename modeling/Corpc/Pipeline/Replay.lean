/-
# The calls of a decoder, one after the other

The log of a pipeline has the frames that were handed to `decodeFun_`.  Decoding them again, from
the connection that the pipeline was made with, leads to the same log (`Log.Replays`), however they
came in.
-/

import Corpc.Pipeline.Receive

namespace Corpc.Pipeline

open Corpc.Basis Wire

variable {κ τ : Type}

structure Call (κ τ : Type) where
  before : κ
  head : List UInt8
  body : List UInt8
  after : κ
  task : Option τ

def trace (dec : DecodeFunction κ τ) : κ → List (List UInt8 × List UInt8) → List (Call κ τ)
  | _, [] => []
  | c, f :: frames =>
    match dec.decode c f.1 f.2 with
    | none => []
    | some (c', task) =>
      ⟨c, f.1, f.2, c', task⟩ :: if dec.isDecodeError c' then [] else trace dec c' frames

def Call.added (dec : DecodeFunction κ τ) (call : Call κ τ) : List τ :=
  if dec.isDecodeError call.after then [] else call.task.toList

def Log.decodeAll (dec : DecodeFunction κ τ) (log : Log κ τ)
    (frames : List (List UInt8 × List UInt8)) : Flow Exit (Log κ τ) :=
  feed (fun log f => log.decode dec f.1 f.2) log frames

def Log.Replays (dec : DecodeFunction κ τ) (c : κ) (log : Log κ τ) : Prop :=
  (Log.decodeAll dec ⟨c, [], []⟩ log.calls).state = log

variable {cfg : Config} {dec : DecodeFunction κ τ} {c : κ}

theorem Log.calls_decode (log : Log κ τ) (head body : List UInt8) :
    (log.decode dec head body).state.calls = log.calls ++ [(head, body)] := by
  unfold Log.decode
  split
  · rfl
  · dsimp only
    split <;> rfl

theorem Log.replays_decode {log : Log κ τ}
    (h : Log.decodeAll dec ⟨c, [], []⟩ log.calls = .more log) (head body : List UInt8) :
    (log.decode dec head body).All
      (fun log => Log.decodeAll dec ⟨c, [], []⟩ log.calls = .more log)
      fun _ log => log.Replays dec c := by
  have hnext : Log.decodeAll dec ⟨c, [], []⟩ (log.decode dec head body).state.calls =
      log.decode dec head body := by
    rw [Log.calls_decode, Log.decodeAll, feed_append, ← Log.decodeAll, h]
    exact Flow.bind_more _
  revert hnext
  generalize log.decode dec head body = x
  intro hnext
  cases x with
  | more log' => exact hnext
  | stop r log' => exact congrArg Flow.state hnext

theorem Log.replays_state {σ : Type} {log : σ → Log κ τ} {x : Flow Exit σ}
    (h : x.All (fun s => Log.decodeAll dec ⟨c, [], []⟩ (log s).calls = .more (log s))
      fun _ s => (log s).Replays dec c) : (log x.state).Replays dec c := by
  cases x with
  | more s => exact congrArg Flow.state h
  | stop r s => exact h

theorem Log.replays_of_more {log : Log κ τ}
    (h : Log.decodeAll dec ⟨c, [], []⟩ log.calls = .more log) : log.Replays dec c :=
  congrArg Flow.state h

theorem keptByNoChange {β : Type} {L : Log κ τ → Prop} (xs : List β) :
    KeptByChanges L (xs.map (Input.data (κ := κ))) := by
  intro conn hconn
  simp at hconn

/-- **What a TCP pipeline did is what the decoder does with its frames.** -/
theorem TcpPipeline.replays (cfg : Config) (dec : DecodeFunction κ τ) (c : κ)
    (chunks : List (List UInt8)) :
    (feed (TcpPipeline.receive cfg dec) (.new cfg c) (chunks.map .data)).state.log.Replays dec c :=
  Log.replays_state (TcpPipeline.receive_all
    (fun _ head body _ h => Log.replays_decode h head body) (fun _ _ _ => Log.replays_of_more) rfl
    (keptByNoChange chunks))

theorem KcpPipeline.replays (cfg : Config) (dec : DecodeFunction κ τ) (c : κ)
    (inputs : List KcpInput) :
    (feed (KcpPipeline.receive cfg dec) (.new cfg c)
      (inputs.map .data)).state.pipe.log.Replays dec c :=
  @Log.replays_state _ _ _ _ _ (fun k : KcpPipeline κ τ => k.pipe.log) _ (KcpPipeline.receive_all
    (fun _ head body _ h => Log.replays_decode h head body) (fun _ _ _ => Log.replays_of_more) rfl
    (keptByNoChange inputs))

theorem UdpPipeline.replays (headSize maxBodySize : ℕ) (dec : DecodeFunction κ τ) (c : κ)
    (inputs : List Datagram) :
    (feed (UdpPipeline.receive headSize dec) (.new headSize maxBodySize c)
      (inputs.map .data)).state.log.Replays dec c :=
  Log.replays_state (UdpPipeline.receive_all
    (fun _ head body h => Log.replays_decode h head body) (fun _ _ _ => Log.replays_of_more)
    headSize maxBodySize rfl (keptByNoChange inputs))

theorem Log.decodeAll_cons (log : Log κ τ) (f : List UInt8 × List UInt8)
    (frames : List (List UInt8 × List UInt8)) :
    Log.decodeAll dec log (f :: frames) =
      (log.decode dec f.1 f.2).bind (Log.decodeAll dec · frames) := rfl

theorem Log.tasks_decodeAll (dec : DecodeFunction κ τ) (log : Log κ τ)
    (frames : List (List UInt8 × List UInt8)) :
    (Log.decodeAll dec log frames).state.tasks =
      log.tasks ++ (trace dec log.conn frames).flatMap (Call.added dec) := by
  induction frames generalizing log with
  | nil => exact (List.append_nil _).symm
  | cons f frames ih =>
    rw [Log.decodeAll_cons, trace]
    cases hdec : dec.decode log.conn f.1 f.2 with
    | none =>
      have hlog : log.decode dec f.1 f.2 =
          .stop .aborted { log with calls := log.calls ++ [(f.1, f.2)] } := by
        unfold Log.decode
        rw [hdec]
      rw [hlog]
      exact (List.append_nil _).symm
    | some r =>
      obtain ⟨c', task⟩ := r
      dsimp only
      by_cases herr : dec.isDecodeError c' = true
      · have hlog : log.decode dec f.1 f.2 =
            .stop .refused ⟨c', log.calls ++ [(f.1, f.2)], log.tasks⟩ := by
          unfold Log.decode
          rw [hdec]
          exact if_pos herr
        rw [hlog, if_pos herr, List.flatMap_singleton, Call.added, if_pos herr]
        exact (List.append_nil _).symm
      · have hlog : log.decode dec f.1 f.2 =
            .more ⟨c', log.calls ++ [(f.1, f.2)], log.tasks ++ task.toList⟩ := by
          unfold Log.decode
          rw [hdec]
          exact if_neg herr
        rw [hlog, Flow.more_bind, ih, if_neg herr, List.flatMap_cons, Call.added, if_neg herr,
          List.append_assoc]

/-- **The tasks that the worker got are those of the calls in the log.** -/
theorem Log.Replays.tasks {log : Log κ τ} (h : log.Replays dec c) :
    log.tasks = (trace dec c log.calls).flatMap (Call.added dec) := by
  have htasks := Log.tasks_decodeAll dec ⟨c, [], []⟩ log.calls
  rw [h] at htasks
  exact htasks

end Corpc.Pipeline
