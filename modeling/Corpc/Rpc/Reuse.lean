/-
# Response objects that are used again

A caller may hand to `CallMethod` a response object that still holds the answer of an earlier
call.  In a call without time-out `decode` parses the body into the object, and parsing replaces
the content.
-/

import Corpc.Rpc.Exchange

namespace Corpc.Rpc

open Corpc.Basis Wire Pipeline Function

variable {δ μ κ φ ρ α : Type}

/-- The task of a call once `decode` has parsed the response `m` for it. -/
def ClientCall.holding (pb : Protobuf δ μ) (co expireTime : UInt64) (response m : μ) :
    ClientCall μ :=
  if expireTime = 0 then { ClientCall.new pb co 0 .reset response with response := m }
  else { ClientCall.new pb co expireTime .reset response with response_1 := some m }

def answerIn (pb : Protobuf δ μ) (expireTime : UInt64) (response m : μ) : μ :=
  if expireTime = 0 then m else pb.mergeFrom response m

section Calls

variable (pb : Protobuf δ μ) {co expireTime : UInt64} {response m : μ}

theorem ClientCall.receive_new (hd : pb.descriptor m = pb.descriptor response) :
    (ClientCall.new pb co expireTime .reset response).receive pb 0 (pb.serialize m) =
      some (.holding pb co expireTime response m) := by
  have hparse := pb.parse_of_bytes hd rfl
  by_cases hexp : expireTime = 0
  · simp [ClientCall.receive, ClientCall.new, ClientCall.holding, hexp, hparse]
  · simp [ClientCall.receive, ClientCall.new, ClientCall.holding, hexp, pb.descriptor_new, hparse]

@[simp]
theorem ClientCall.co_holding :
    (ClientCall.holding pb co expireTime response m).co = co := by
  unfold ClientCall.holding
  split_ifs <;> rfl

@[simp]
theorem ClientCall.expireTime_holding :
    (ClientCall.holding pb co expireTime response m).expireTime = expireTime := by
  unfold ClientCall.holding
  split_ifs with h
  · exact h.symm
  · rfl

theorem ClientCall.holding_untimed (co : UInt64) (response m : μ) (hexp : expireTime = 0) :
    (ClientCall.holding pb co expireTime response m).controller = .reset ∧
      (ClientCall.holding pb co expireTime response m).response =
        answerIn pb expireTime response m := by
  rw [ClientCall.holding, if_pos hexp, answerIn, if_pos hexp]
  exact ⟨rfl, rfl⟩

theorem ClientCall.settle_holding (co : UInt64) (response m : μ) (hexp : expireTime ≠ 0) :
    ((ClientCall.holding pb co expireTime response m).settle pb 0).controller = .reset ∧
      ((ClientCall.holding pb co expireTime response m).settle pb 0).response =
        answerIn pb expireTime response m := by
  rw [ClientCall.holding, if_neg hexp, answerIn, if_neg hexp]
  exact ⟨rfl, rfl⟩

end Calls

/-- **What is left of the server's answer**: all of it, and nothing else, exactly where the call
has no time-out or the answer covers the old content. -/
theorem answerIn_eq_iff {pb : Protobuf δ μ} (F : pb.Fields φ ρ α) {expireTime : UInt64}
    {response m : μ} (hd : pb.descriptor m = pb.descriptor response) :
    answerIn pb expireTime response m = m ↔ expireTime = 0 ∨ F.Covers m response := by
  unfold answerIn
  split_ifs with hexp
  · exact iff_of_true rfl (.inl hexp)
  · rw [F.mergeFrom_eq_iff hd, or_iff_right hexp]

variable [DecidableEq κ]

/-- From `s` to `t` other routines have run, which left alone the call `k`, its node, and the
message that wakes its coroutine. -/
structure Callers.Keeps (s t : Callers κ μ) (k : κ) (wr : WaitResumeRPCRoutine) : Prop where
  call : t.calls k = s.calls k
  node : t.timeoutList wr.co = s.timeoutList wr.co
  message : wr ∈ s.waitResumeQueue → wr ∈ t.waitResumeQueue

theorem decode_response (pb : Protobuf δ μ) {s : Callers κ μ} {k : κ} {answer : ResponseTask}
    {m response : μ} (hsend : SendableResponse answer)
    (hw : s.Waits pb k answer.callId answer.expireTime response)
    (hok : answer.controller.failed = false) (hbytes : answer.response.bytes = pb.serialize m)
    (hd : pb.descriptor m = pb.descriptor response) :
    RpcClient.decode pb s (responseFrame answer).1 (responseFrame answer).2 = some { s with
      calls := update s.calls k
        (.holding pb answer.callId answer.expireTime response m)
      waitResultCoMap := update s.waitResultCoMap answer.callId none
      waitResumeQueue := s.waitResumeQueue ++ [⟨answer.callId, answer.expireTime, 0⟩] } := by
  have hreceive : (s.calls k).receive pb (UInt32.ofNat (field (responseFrame answer).1 20 4))
      (responseFrame answer).2 =
      some (.holding pb answer.callId answer.expireTime response m) := by
    have hbody : (responseFrame answer).2 = pb.serialize m := by
      simp [responseFrame, hok, hbytes]
    have hcode : UInt32.ofNat (field (responseFrame answer).1 20 4) = 0 :=
      (errorCode_responseHead answer).trans (Controller.toUInt32_errorCode hok)
    rw [hw.call, hbody, hcode]
    exact ClientCall.receive_new pb hd
  have hexp : (s.calls k).expireTime = answer.expireTime := by
    rw [hw.call]
    rfl
  have hdecode := RpcClient.decode_entry pb (framed_response hsend).readSize
    (callId_responseHead answer) (expireTime_responseHead answer) hw.entry hexp hreceive
  rwa [ClientCall.co_holding] at hdecode

/-- **A successful call leaves the caller with the server's message exactly where no old content
shows.** -/
theorem answer_exact_iff (pb : Protobuf δ μ) (F : pb.Fields φ ρ α) {s : Callers κ μ} {k : κ}
    {answer : ResponseTask} {m response : μ} (hsend : SendableResponse answer)
    (hw : s.Waits pb k answer.callId answer.expireTime response)
    (hok : answer.controller.failed = false) (hbytes : answer.response.bytes = pb.serialize m)
    (hd : pb.descriptor m = pb.descriptor response) :
    ∃ s₁, RpcClient.decode pb s (responseFrame answer).1 (responseFrame answer).2 = some s₁ ∧
      ∀ s₂, s₁.Keeps s₂ k ⟨answer.callId, answer.expireTime, 0⟩ →
        ∃ s₃, resumeRoutine pb s₂ ⟨answer.callId, answer.expireTime, 0⟩ = some s₃ ∧
          s₃.active = s₂.active ++ [answer.callId] ∧
          (s₃.calls k).controller.failed = false ∧
          ((s₃.calls k).response = m ↔ answer.expireTime = 0 ∨ F.Covers m response) := by
  refine ⟨_, decode_response pb hsend hw hok hbytes hd, fun s₂ hkeep => ?_⟩
  have hcall : s₂.calls k = .holding pb answer.callId answer.expireTime response m := by
    rw [hkeep.call]
    exact update_self ..
  have hmem := hkeep.message (List.mem_append_right _ (List.mem_singleton_self _))
  rw [← answerIn_eq_iff F hd]
  by_cases hexp : answer.expireTime = 0
  · have hdone := ClientCall.holding_untimed pb answer.callId response m hexp
    rw [← hcall] at hdone
    refine ⟨_, resumeRoutine_untimed pb hmem hexp, rfl, ?_, ?_⟩
    · rw [hdone.1]
      rfl
    · rw [hdone.2]
  · have hdone := ClientCall.settle_holding pb answer.callId response m hexp
    rw [← hcall] at hdone
    have hnode : s₂.timeoutList answer.callId = some k := hkeep.node.trans (hw.node hexp)
    have hk : (s₂.calls k).expireTime = answer.expireTime := by
      rw [hcall, ClientCall.expireTime_holding]
    refine ⟨_, resumeRoutine_node pb hmem hexp hnode hk, rfl, ?_, ?_⟩
    · simp only [update_self]
      rw [hdone.1]
      rfl
    · simp only [update_self]
      rw [hdone.2]

/-- Coroutine 3 waits in a call with a response object that holds `response`. -/
def reusingCaller (expireTime : UInt64) (response : Option UInt8 × List UInt8) :
    Callers Unit (Option UInt8 × List UInt8) where
  calls := fun _ => .new .optionalRepeated 3 expireTime .reset response
  waitResultCoMap := fun co => if co = 3 then some () else none
  timeoutList := fun co => if co = 3 ∧ expireTime ≠ 0 then some () else none
  waitResumeQueue := []
  active := []

theorem reusingCaller_waits (expireTime : UInt64) (response : Option UInt8 × List UInt8) :
    (reusingCaller expireTime response).Waits .optionalRepeated () 3 expireTime response :=
  ⟨rfl, rfl, fun h => by simp [reusingCaller, h]⟩

/-- The successful answer `m` to coroutine 3. -/
def answerWith (expireTime : UInt64) (m : Option UInt8 × List UInt8) : ResponseTask :=
  ⟨3, expireTime, .reset, ⟨Protobuf.optionalRepeated.serialize m, 0⟩⟩

def leftWith (expireTime : UInt64) (response m : Option UInt8 × List UInt8) :
    Option (Bool × (Option UInt8 × List UInt8)) :=
  (deliver .optionalRepeated (reusingCaller expireTime response)
    (responseFrame (answerWith expireTime m)).1 (responseFrame (answerWith expireTime m)).2).map
    fun s => ((s.calls ()).controller.failed, (s.calls ()).response)

/-- **The old content stays in a call with a time-out**: the object held a 1 and `[7]`, the server
answers with no optional field and `[5]`, and the call succeeds with the 1 and `[7, 5]`. -/
theorem timed_answer_keeps_old_content :
    leftWith 9 (some 1, [7]) (none, [5]) = some (false, (some 1, [7, 5])) ∧
      leftWith 0 (some 1, [7]) (none, [5]) = some (false, (none, [5])) := by
  decide +kernel

/-- `answer_exact_iff` at a call with a time-out whose object held an optional field that the
answer sets: the caller is left with the answer. -/
theorem answer_exact_covered :
    ∃ s₁, RpcClient.decode .optionalRepeated (reusingCaller 9 (some 1, []))
        (responseFrame (answerWith 9 (some 2, [5]))).1
        (responseFrame (answerWith 9 (some 2, [5]))).2 = some s₁ ∧
      ∃ s₃, resumeRoutine .optionalRepeated s₁ ⟨3, 9, 0⟩ = some s₃ ∧
        (s₃.calls ()).response = (some 2, [5]) := by
  have hsend : SendableResponse (answerWith 9 (some 2, [5])) := ⟨.inl rfl, by decide⟩
  obtain ⟨s₁, hdec, hres⟩ := answer_exact_iff .optionalRepeated Protobuf.optionalRepeatedFields
    (m := (some 2, [5])) hsend (reusingCaller_waits 9 (some 1, [])) rfl rfl rfl
  obtain ⟨s₃, hs₃, -, -, hiff⟩ := hres s₁ ⟨rfl, rfl, id⟩
  have hcovers : Protobuf.optionalRepeatedFields.Covers (some 2, [5]) (some 1, []) :=
    ⟨fun _ _ => rfl, fun _ => rfl⟩
  exact ⟨s₁, hdec, s₃, hs₃, hiff.2 (.inr hcovers)⟩

end Corpc.Rpc
