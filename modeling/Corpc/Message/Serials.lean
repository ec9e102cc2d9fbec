/-
# No message is delivered twice

With `enableSerial_`, `MessageTerminal::decode` takes an application message only under the serial
after the last one, and a jump only forward; anything else is a decode error, after which the
pipeline hands over nothing.
-/

import Corpc.Message.Decoder
import Corpc.Message.Resend
import Corpc.Pipeline.Replay

namespace Corpc.Message

open Corpc.Basis Wire Pipeline List Option

variable {μ : Type}

/-- A call of `decode` by a pipeline. -/
abbrev MessageCall (μ : Type) := Pipeline.Call (ℕ × Connection μ) (MessageWorkerTask μ)

def delivered (call : MessageCall μ) : Option UInt32 :=
  if headType call.head < 0 then none else call.task.map fun _ => headSerial call.head

def accepted (call : MessageCall μ) : Option UInt32 :=
  if headType call.head = msgTypeJumpSerial then
    if call.after.2.decodeError then none else some (headSerial call.head)
  else delivered call

/-- The last serial or target that was accepted in a row of calls, at first `r`. -/
def lastAccepted (r : UInt32) (calls : List (MessageCall μ)) : UInt32 :=
  (calls.filterMap accepted).getLast?.getD r

def NeverWraps (calls : List (MessageCall μ)) : Prop :=
  ∀ call ∈ calls, 0 ≤ headType call.head → call.before.2.recvSerial.toNat + 1 < 2 ^ 32

/-- The messages of a row of calls are in order: their serials go up, and each is one more than the
last serial or target that was accepted. -/
structure InOrder (r : UInt32) (calls : List (MessageCall μ)) : Prop where
  above : ∀ s ∈ calls.filterMap delivered, r < s
  increasing : (calls.filterMap delivered).Pairwise (· < ·)
  next : ∀ pre call post, calls = pre ++ call :: post → ∀ s ∈ delivered call,
    s.toNat = (lastAccepted r pre).toNat + 1

inductive Counted (call : MessageCall μ) : Prop
  | refused (herror : call.after.2.decodeError = true) (hnone : delivered call = none)
  | message (hdelivered : delivered call = some (call.before.2.recvSerial + 1))
      (haccepted : accepted call = some (call.before.2.recvSerial + 1))
      (hafter : call.after.2.recvSerial = call.before.2.recvSerial + 1)
      (happlication : 0 ≤ headType call.head) (hrunning : call.after.2.decodeError = false)
  | jump (target : UInt32) (hnone : delivered call = none) (haccepted : accepted call = some target)
      (hafter : call.after.2.recvSerial = target) (hlt : call.before.2.recvSerial < target)
  | other (hnone : delivered call = none) (haccepted : accepted call = none)
      (hafter : call.after.2.recvSerial = call.before.2.recvSerial)

variable {c : ℕ × Connection μ}

theorem counted_of_decode {c' : ℕ × Connection μ} {head body : List UInt8}
    {task : Option (MessageWorkerTask μ)} (hs : c.2.terminal.enableSerial = true)
    (he : c.2.decodeError = false) (h : messageDecode.decode c head body = some (c', task)) :
    Counted ⟨c, head, body, c', task⟩ ∧ c'.2.terminal = c.2.terminal := by
  obtain ⟨⟨conn', task'⟩, hdec, heq⟩ := map_eq_some_iff.1 h
  obtain ⟨rfl, rfl⟩ := Prod.mk.inj heq
  by_cases htype : headType head < 0
  · have hnone : delivered ⟨c, head, body, (c.1, conn'), task'⟩ = none := if_pos htype
    rcases decode_system htype hdec with
      ⟨hjump, hlt, rfl⟩ | ⟨hjump, hle, rfl⟩ | ⟨hjump, t, rfl⟩
    · refine ⟨.jump (headSerial head) hnone ?_ rfl hlt, rfl⟩
      unfold accepted
      rw [if_pos hjump, if_neg (Bool.eq_false_iff.1 he)]
    · exact ⟨.refused rfl hnone, rfl⟩
    · refine ⟨.other hnone ?_ rfl, rfl⟩
      unfold accepted
      rw [if_neg hjump, hnone]
  · have hjump : headType head ≠ msgTypeJumpSerial := by
      intro hjump
      rw [hjump] at htype
      exact htype (by decide)
    have hsame : ∀ {a : ℕ × Connection μ} {task : Option (MessageWorkerTask μ)},
        accepted ⟨c, head, body, a, task⟩ = delivered ⟨c, head, body, a, task⟩ :=
      fun {_ _} => if_neg hjump
    have hdelivered : ∀ {a : ℕ × Connection μ} {task : Option (MessageWorkerTask μ)},
        delivered ⟨c, head, body, a, task⟩ = task.map fun _ => headSerial head :=
      fun {_ _} => if_neg htype
    rcases decode_data hs htype hdec with ⟨-, rfl, rfl⟩ | ⟨-, hsome, hserial, rfl⟩
    · exact ⟨.refused rfl hdelivered, rfl⟩
    · obtain ⟨task, rfl⟩ := isSome_iff_exists.1 hsome
      have hd : delivered ⟨c, head, body, (c.1, { c.2 with recvSerial := c.2.recvSerial + 1 }),
          some task⟩ = some (c.2.recvSerial + 1) := by
        rw [hdelivered, ← hserial]
        rfl
      exact ⟨.message hd (hsame.trans hd) rfl (Int32.not_lt.1 htype) he, rfl⟩

variable {call : MessageCall μ}

theorem Counted.delivered_of_error (h : Counted call)
    (herror : call.after.2.decodeError = true) : delivered call = none := by
  cases h with
  | refused _ hnone | jump _ hnone | other hnone => exact hnone
  | message _ _ _ _ hrunning =>
    rw [herror] at hrunning
    cases hrunning

theorem lastAccepted_cons (r : UInt32) (call : MessageCall μ) (calls : List (MessageCall μ)) :
    lastAccepted r (call :: calls) = lastAccepted ((accepted call).getD r) calls := by
  unfold lastAccepted
  cases h : accepted call with
  | none => rw [filterMap_cons_none h, getD_none]
  | some a =>
    rw [filterMap_cons_some h, List.getLast?_cons, getD_some]
    cases (calls.filterMap accepted).getLast? <;> rfl

theorem inOrder_nil (r : UInt32) : InOrder r ([] : List (MessageCall μ)) where
  above := nofun
  increasing := .nil
  next := by simp

theorem inOrder_singleton (r : UInt32) (hnone : delivered call = none) :
    InOrder r [call] where
  above := by simp [hnone]
  increasing := by simp [hnone]
  next := by
    intro pre call' post hcalls s hdelivered
    cases pre with
    | nil =>
      obtain ⟨rfl, -⟩ := cons.inj hcalls
      rw [hnone] at hdelivered
      cases hdelivered
    | cons first pre => simp at hcalls

theorem InOrder.skip {r r' : UInt32} {calls : List (MessageCall μ)}
    (h : InOrder r' calls) (hnone : delivered call = none) (hr : r' = (accepted call).getD r)
    (hle : r ≤ r') : InOrder r (call :: calls) where
  above := by
    rw [filterMap_cons_none hnone]
    exact fun s hs => UInt32.lt_of_le_of_lt hle (h.above s hs)
  increasing := by
    rw [filterMap_cons_none hnone]
    exact h.increasing
  next := by
    intro pre call' post hcalls s hdelivered
    cases pre with
    | nil =>
      obtain ⟨rfl, -⟩ := cons.inj hcalls
      rw [hnone] at hdelivered
      cases hdelivered
    | cons first pre =>
      obtain ⟨rfl, hrest⟩ := cons.inj hcalls
      rw [lastAccepted_cons, ← hr]
      exact h.next pre call' post hrest s hdelivered

theorem InOrder.deliver {r : UInt32} {calls : List (MessageCall μ)}
    (h : InOrder (r + 1) calls) (hdelivered : delivered call = some (r + 1))
    (haccepted : accepted call = some (r + 1)) (hwrap : r.toNat + 1 < 2 ^ 32) :
    InOrder r (call :: calls) := by
  have hnat : (r + 1).toNat = r.toNat + 1 := by
    rw [UInt32.toNat_add]
    exact Nat.mod_eq_of_lt hwrap
  have hlt : r < r + 1 := by
    rw [UInt32.lt_iff_toNat_lt, hnat]
    exact Nat.lt_succ_self _
  refine ⟨?_, ?_, ?_⟩
  · rw [filterMap_cons_some hdelivered]
    intro s hs
    rcases mem_cons.1 hs with rfl | hs
    · exact hlt
    · exact UInt32.lt_trans hlt (h.above s hs)
  · rw [List.filterMap_cons_some hdelivered]
    exact pairwise_cons.2 ⟨h.above, h.increasing⟩
  · intro pre call' post hcalls s hd
    cases pre with
    | nil =>
      obtain ⟨rfl, -⟩ := cons.inj hcalls
      rw [hdelivered] at hd
      cases hd
      exact hnat
    | cons first pre =>
      obtain ⟨rfl, hrest⟩ := cons.inj hcalls
      rw [lastAccepted_cons, haccepted]
      exact h.next pre call' post hrest s hd

/-- **The messages of any frames are in order.** -/
theorem inOrder_trace (frames : List (List UInt8 × List UInt8))
    (hs : c.2.terminal.enableSerial = true) (he : c.2.decodeError = false)
    (hw : NeverWraps (trace messageDecode c frames)) :
    InOrder c.2.recvSerial (trace messageDecode c frames) := by
  induction frames generalizing c with
  | nil => exact inOrder_nil _
  | cons f frames ih =>
    unfold trace at hw ⊢
    cases hdec : messageDecode.decode c f.1 f.2 with
    | none => exact inOrder_nil _
    | some q =>
      obtain ⟨c', task⟩ := q
      rw [hdec] at hw
      dsimp only at hw ⊢
      obtain ⟨hcounted, hterminal⟩ := counted_of_decode hs he hdec
      by_cases herr : c'.2.decodeError = true
      · -- the row ends here
        have hrow : (if messageDecode.isDecodeError c' then []
            else trace messageDecode c' frames) = [] := if_pos herr
        rw [hrow]
        exact inOrder_singleton _ (hcounted.delivered_of_error herr)
      · have hrow : (if messageDecode.isDecodeError c' then []
            else trace messageDecode c' frames) = trace messageDecode c' frames := if_neg herr
        rw [hrow] at hw ⊢
        have hrest := ih (hterminal ▸ hs) (Bool.eq_false_iff.2 herr)
          fun call hcall => hw call (mem_cons_of_mem _ hcall)
        cases hcounted with
        | refused herror _ => exact absurd herror herr
        | message hdelivered haccepted hafter happlication =>
          rw [show c'.2.recvSerial = c.2.recvSerial + 1 from hafter] at hrest
          exact hrest.deliver hdelivered haccepted (hw _ mem_cons_self happlication)
        | jump target hnone haccepted hafter hlt =>
          refine hrest.skip hnone ?_ ?_
          · rw [haccepted]
            exact hafter
          · rw [show c'.2.recvSerial = target from hafter]
            exact UInt32.le_of_lt hlt
        | other hnone haccepted hafter =>
          refine hrest.skip hnone ?_ ?_
          · rw [haccepted]
            exact hafter
          · rw [show c'.2.recvSerial = c.2.recvSerial from hafter]
            exact UInt32.le_refl _

/-- What a pipeline that was made with the connection `c` has done: the tasks are those of the calls
in its log, and their messages are in order unless the counter has wrapped. -/
def DeliversInOrder (c : ℕ × Connection μ) (log : Log (ℕ × Connection μ) (MessageWorkerTask μ)) :
    Prop :=
  log.tasks = (trace messageDecode c log.calls).flatMap (Call.added messageDecode) ∧
    (NeverWraps (trace messageDecode c log.calls) →
      InOrder c.2.recvSerial (trace messageDecode c log.calls))

theorem deliversInOrder_of_replays {log : Log (ℕ × Connection μ) (MessageWorkerTask μ)}
    (hs : c.2.terminal.enableSerial = true) (he : c.2.decodeError = false)
    (h : log.Replays messageDecode c) : DeliversInOrder c log :=
  ⟨h.tasks, inOrder_trace log.calls hs he⟩

/-- **No message is delivered twice or out of order,** behind any of the three pipelines and
whatever is received, as long as the counter does not wrap. -/
theorem delivers_in_order (c : ℕ × Connection μ) (hs : c.2.terminal.enableSerial = true)
    (he : c.2.decodeError = false) :
    (∀ cfg (chunks : List (List UInt8)), DeliversInOrder c
      (feed (TcpPipeline.receive cfg messageDecode) (.new cfg c) (chunks.map .data)).state.log) ∧
    (∀ cfg (inputs : List KcpInput), DeliversInOrder c
      (feed (KcpPipeline.receive cfg messageDecode) (.new cfg c)
        (inputs.map .data)).state.pipe.log) ∧
    ∀ headSize maxBodySize (inputs : List Datagram), DeliversInOrder c
      (feed (UdpPipeline.receive headSize messageDecode) (.new headSize maxBodySize c)
        (inputs.map .data)).state.log :=
  ⟨fun cfg chunks => deliversInOrder_of_replays hs he (TcpPipeline.replays cfg _ c chunks),
    fun cfg inputs => deliversInOrder_of_replays hs he (KcpPipeline.replays cfg _ c inputs),
    fun headSize maxBodySize inputs => deliversInOrder_of_replays hs he
      (UdpPipeline.replays headSize maxBodySize _ c inputs)⟩

def wrappingFrames : List (List UInt8 × List UInt8) :=
  [(headOfType1 1, []), (encodeHead 0 msgTypeJumpSerial 0 0 0 0xFFFFFFFF 0, []),
    (headOfType1 0, []), (headOfType1 1, [])]

def frameBytes (frames : List (List UInt8 × List UInt8)) : List UInt8 :=
  frames.flatMap fun f => f.1 ++ f.2

/-- Four frames deliver serial 1 twice, and serial 0 between. -/
theorem serial_delivered_twice :
    (TcpPipeline.report (feed (TcpPipeline.upflow messageConfig messageDecode)
      (.new messageConfig (0, freshReceiver)) [frameBytes wrappingFrames])).1 = none ∧
    (TcpPipeline.report (feed (TcpPipeline.upflow messageConfig messageDecode)
      (.new messageConfig (0, freshReceiver)) [frameBytes wrappingFrames])).2.calls =
        wrappingFrames ∧
    (trace messageDecode (0, freshReceiver) wrappingFrames).filterMap delivered = [1, 0, 1] := by
  rw [report_chunks]
  refine ⟨by decide +kernel, by decide +kernel, by decide +kernel⟩

def duplicateFrames : List (List UInt8 × List UInt8) := [(headOfType1 1, []), (headOfType1 1, [])]

theorem delivers_in_order_duplicate :
    NeverWraps (trace messageDecode (0, freshReceiver) duplicateFrames) ∧
    (trace messageDecode (0, freshReceiver) duplicateFrames).filterMap delivered = [1] ∧
    DeliversInOrder (0, freshReceiver) (feed (TcpPipeline.receive messageConfig messageDecode)
      (.new messageConfig (0, freshReceiver))
      ([frameBytes duplicateFrames].map .data)).state.log := by
  refine ⟨?_, by decide +kernel, (delivers_in_order (0, freshReceiver) rfl rfl).1 messageConfig _⟩
  show ∀ call ∈ trace messageDecode (0, freshReceiver) duplicateFrames,
    0 ≤ headType call.head → call.before.2.recvSerial.toNat + 1 < 2 ^ 32
  decide +kernel

end Corpc.Message
