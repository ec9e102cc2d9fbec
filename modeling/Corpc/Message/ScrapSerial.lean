/-
# What `lastScrapSerial_` says

An application asks `getLastScrapSerial` whether a client that comes back can still be served.  It
is written by eviction, by `resetMsgBuffer` and by `scrapMessages`, whose argument `doTask` takes
from the frame of the peer as it is.
-/

import Corpc.Message.BufferSteps
import Corpc.Message.Resend
import Corpc.Message.Worker

namespace Corpc.Message

open Corpc.Basis Wire List Option Connection

variable {μ : Type}

/-- `lastScrapSerial_` separates what the buffer still has from what it has discarded; `seen` are
the messages that have been in it. -/
structure MessageBuffer.Truthful (b : MessageBuffer) (seen : List SendMessageInfo) : Prop where
  le_lastSerial : b.lastScrapSerial ≤ b.lastSerial
  still : ∀ m ∈ b.bufMsglink, b.lastScrapSerial < m.serial
  discarded : ∀ m ∈ seen, m ∉ b.bufMsglink → m.serial ≤ b.lastScrapSerial

section Truthful

variable {b : MessageBuffer} {serial : UInt32} {seen : List SendMessageInfo}

theorem truthful_reset (b : MessageBuffer) (serial : UInt32) : (b.reset serial).Truthful [] where
  le_lastSerial := UInt32.le_refl serial
  still := nofun
  discarded := nofun

theorem MessageBuffer.Truthful.seen_le (h : b.Truthful seen) (hin : b.InStep serial)
    {m : SendMessageInfo} (hm : m ∈ seen) : m.serial ≤ serial := by
  by_cases hlink : m ∈ b.bufMsglink
  · exact hin.bounded m hlink
  · exact UInt32.le_trans (h.discarded m hm hlink) (hin.lastSerial ▸ h.le_lastSerial)

theorem MessageBuffer.Truthful.evict (h : b.Truthful seen) (hin : b.InStep serial) :
    b.evict.Truthful seen ∧ b.lastScrapSerial ≤ b.evict.lastScrapSerial := by
  rcases hin.evict_cases with ⟨heq, -⟩ | ⟨m, rest, hlink, -, -, heq⟩
  · rw [heq]
    exact ⟨h, UInt32.le_refl _⟩
  · rw [heq]
    have hm : m ∈ b.bufMsglink := hlink ▸ mem_cons_self
    have hup : b.lastScrapSerial < m.serial := h.still m hm
    have hinc := hin.increasing
    rw [hlink] at hinc
    refine ⟨⟨?_, ?_, ?_⟩, UInt32.le_of_lt hup⟩
    · exact hin.lastSerial ▸ hin.bounded m hm
    · exact (pairwise_cons.1 hinc).1
    · intro m' hm' hgone
      by_cases hold : m' ∈ b.bufMsglink
      · rw [hlink] at hold
        rw [(List.mem_cons.1 hold).resolve_right hgone]
        exact UInt32.le_refl _
      · exact UInt32.le_trans (h.discarded m' hm' hold) (UInt32.le_of_lt hup)

theorem MessageBuffer.Truthful.see (h : b.Truthful seen) :
    b.Truthful (seen ++ b.bufMsglink) :=
  ⟨h.le_lastSerial, h.still, fun m hm hgone =>
    h.discarded m ((mem_append.1 hm).resolve_right hgone) hgone⟩

theorem MessageBuffer.Truthful.recordSend (h : b.Truthful seen) (hin : b.InStep serial)
    (hw : serial.toNat + 1 < 2 ^ 32) (call : SendCall) :
    (recordSend call.needBuffer (call.info (serial + 1)) b).Truthful seen ∧ b.lastScrapSerial ≤
        (recordSend call.needBuffer (call.info (serial + 1)) b).lastScrapSerial := by
  unfold Message.recordSend
  split_ifs
  · rw [hin.insertMessage_eq rfl]
    obtain ⟨he, hup⟩ := h.evict hin
    have hbelow : b.evict.lastScrapSerial < serial + 1 :=
      lt_next hw (hin.evict.1.lastSerial ▸ he.le_lastSerial)
    refine ⟨⟨UInt32.le_of_lt hbelow, fun m hm => ?_, fun m hm hgone => ?_⟩, hup⟩
    · rcases List.mem_append.1 hm with hm | hm
      · exact he.still m hm
      · rw [mem_singleton.1 hm]
        exact hbelow
    · exact he.discarded m hm fun hold => hgone (mem_append_left _ hold)
  · rw [show (call.info (serial + 1)).serial = serial + 1 from rfl, hin.jumpToSerial_eq]
    have hbelow : b.lastScrapSerial < serial + 1 := lt_next hw (hin.lastSerial ▸ h.le_lastSerial)
    exact ⟨⟨UInt32.le_of_lt hbelow, h.still, h.discarded⟩, UInt32.le_refl _⟩

theorem MessageBuffer.le_lastScrapSerial (b : MessageBuffer) (acked : UInt32) :
    b.lastScrapSerial ≤ (b.scrapMessages acked).lastScrapSerial ∧
      acked ≤ (b.scrapMessages acked).lastScrapSerial := by
  simp only [MessageBuffer.scrapMessages]
  split_ifs with hlt
  · exact ⟨UInt32.le_of_lt hlt, UInt32.le_refl _⟩
  · exact ⟨UInt32.le_refl _, UInt32.not_lt.1 hlt⟩

theorem MessageBuffer.Truthful.scrapMessages (h : b.Truthful seen) (hin : b.InStep serial)
    {acked : UInt32} (hacked : acked ≤ b.lastSerial) : (b.scrapMessages acked).Truthful seen := by
  obtain ⟨hup, hack⟩ := b.le_lastScrapSerial acked
  refine ⟨?_, fun m hm => ?_, fun m hm hgone => ?_⟩
  · simp only [MessageBuffer.scrapMessages]
    split_ifs
    · exact hacked
    · exact h.le_lastSerial
  · obtain ⟨hold, hlt⟩ := hin.mem_scrapMessages.1 hm
    simp only [MessageBuffer.scrapMessages]
    split_ifs
    · exact hlt
    · exact h.still m hold
  · rw [hin.mem_scrapMessages, not_and] at hgone
    by_cases hold : m ∈ b.bufMsglink
    · exact UInt32.le_trans (UInt32.not_lt.1 (hgone hold)) hack
    · exact UInt32.le_trans (h.discarded m hm hold) hup

/-- **The step lemma.**  Every move keeps the value right and does not lower it, if what it
acknowledges has been sent. -/
theorem MessageBuffer.Truthful.move {enableSerial : Bool} {op : BufferOp} {b' : MessageBuffer}
    {serial' : UInt32} (h : b.Truthful seen) (hin : b.InStep serial)
    (hm : BufferMove enableSerial b serial op b' serial')
    (hw : serial.toNat + op.serials enableSerial < 2 ^ 32)
    (hack : ∀ acked, op = .scrapMessages acked → acked ≤ b.lastSerial) :
    b'.Truthful (seen ++ b'.bufMsglink) ∧ b.lastScrapSerial ≤ b'.lastScrapSerial := by
  cases hm with
  | record call htakes =>
    have hone : (BufferOp.send call).serials enableSerial = 1 := if_pos htakes
    rw [hone] at hw
    obtain ⟨hrec, hup⟩ := h.recordSend hin hw call
    exact ⟨hrec.see, hup⟩
  | nothing call htakes => exact ⟨h.see, UInt32.le_refl _⟩
  | scrap acked =>
    exact ⟨(h.scrapMessages hin (hack acked rfl)).see, (b.le_lastScrapSerial acked).1⟩
  | reset =>
    refine ⟨⟨UInt32.le_refl serial, nofun, fun m hm _ => ?_⟩, hin.lastSerial ▸ h.le_lastSerial⟩
    exact h.seen_le hin ((List.mem_append.1 hm).resolve_right List.not_mem_nil)

end Truthful

structure Observed (μ : Type) where
  conn : Connection μ
  seen : List SendMessageInfo

def Observed.start (conn : Connection μ) : Observed μ := ⟨conn, conn.buffered⟩

def Observed.step (o : Observed μ) (op : BufferOp) : Option (Observed μ) :=
  (o.conn.bufferStep op).map fun conn => ⟨conn, o.seen ++ conn.buffered⟩

def Reaches (conn : Connection μ) (ops : List BufferOp) (b : MessageBuffer)
    (seen : List SendMessageInfo) : Prop :=
  ∃ c, run Observed.step (.start conn) ops = some ⟨c, seen⟩ ∧ c.msgBuffer = some b

/-- `lastScrapSerial_` is right at every point of the history, and no operation but a reset lowers
it. -/
def AlwaysTruthful (conn : Connection μ) (ops : List BufferOp) : Prop :=
  (∀ pre b seen, pre <+: ops → Reaches conn pre b seen → b.Truthful seen) ∧
    ∀ pre op b seen b' seen', pre ++ [op] <+: ops → op ≠ .resetMsgBuffer →
      Reaches conn pre b seen → Reaches conn (pre ++ [op]) b' seen' →
      b.lastScrapSerial ≤ b'.lastScrapSerial

def AcksDrawn (conn : Connection μ) (ops : List BufferOp) : Prop :=
  ∀ pre acked b seen, pre ++ [.scrapMessages acked] <+: ops → Reaches conn pre b seen →
    acked ≤ b.lastSerial

section Histories

variable {conn : Connection μ} {b : MessageBuffer} {ops : List BufferOp}

variable {o o' : Observed μ}

theorem Observed.step_eq_some {op : BufferOp} (h : o.step op = some o') :
    o.conn.bufferStep op = some o'.conn ∧ o'.seen = o.seen ++ o'.conn.buffered := by
  obtain ⟨c, hc, rfl⟩ := map_eq_some_iff.1 h
  exact ⟨hc, rfl⟩

theorem run_observed (h : run Observed.step o ops = some o') :
    run Connection.bufferStep o.conn ops = some o'.conn := by
  induction ops generalizing o with
  | nil => exact congrArg (Option.map Observed.conn) h
  | cons op ops ih =>
    rw [run_cons] at h ⊢
    obtain ⟨t, ht, hrest⟩ := bind_eq_some_iff.1 h
    rw [(Observed.step_eq_some ht).1]
    exact ih hrest

theorem Observed.move {op : BufferOp} {enableSerial : Bool} {used : ℕ}
    (h : o.conn.Holds enableSerial used) (hpos : ∀ call, op = .send call → 0 < call.type)
    (hs : o.step op = some o') :
    ∃ b b', o.conn.msgBuffer = some b ∧ b.InStep o.conn.lastSendSerial ∧
      o'.conn.msgBuffer = some b' ∧ o'.seen = o.seen ++ b'.bufMsglink ∧
      BufferMove enableSerial b o.conn.lastSendSerial op b' o'.conn.lastSendSerial := by
  obtain ⟨hstep, hseen⟩ := Observed.step_eq_some hs
  obtain ⟨hon, -, b, hb, hin⟩ := h
  obtain ⟨-, b', hb', hmove⟩ := o.conn.bufferStep_move hb hpos hstep
  refine ⟨b, b', hb, hin, hb', ?_, hon ▸ hmove⟩
  rw [hseen, Connection.buffered, hb']
  rfl

/-- **`lastScrapSerial_` tells the truth exactly as long as acknowledgements do.** -/
theorem lastScrapSerial_truthful_iff (hb : conn.msgBuffer = some b)
    (hin : b.InStep conn.lastSendSerial) (htrue : b.Truthful b.bufMsglink) (hpos : Positive ops)
    (hw : conn.lastSendSerial.toNat + serialsUsed conn.terminal.enableSerial ops < 2 ^ 32) :
    AlwaysTruthful conn ops ↔ AcksDrawn conn ops := by
  have hstart : conn.Holds conn.terminal.enableSerial conn.lastSendSerial.toNat :=
    ⟨rfl, rfl, b, hb, hin⟩
  -- every point of the history is in step
  have hholds : ∀ pre o, pre <+: ops → run Observed.step (.start conn) pre = some o →
      o.conn.Holds conn.terminal.enableSerial
        (conn.lastSendSerial.toNat + serialsUsed conn.terminal.enableSerial pre) := by
    intro pre o hpre hrun
    refine hstart.run (fun call hcall => hpos call (hpre.subset hcall)) ?_ (run_observed hrun)
    have hle := serialsUsed_le_of_prefix conn.terminal.enableSerial hpre
    omega
  -- an operation on a truthful buffer
  have hstep : AcksDrawn conn ops → ∀ pre op o o' b₁, pre ++ [op] <+: ops →
      run Observed.step (.start conn) pre = some o → o.conn.msgBuffer = some b₁ →
      b₁.Truthful o.seen → o.step op = some o' →
      ∃ b₂, o'.conn.msgBuffer = some b₂ ∧ b₂.Truthful o'.seen ∧
        b₁.lastScrapSerial ≤ b₂.lastScrapSerial := by
    intro hacks pre op o o' b₁ hpre hrun hb₁ ht hs
    have hpre' : pre <+: ops := (prefix_append pre [op]).trans hpre
    have hmem : op ∈ ops := hpre.subset (mem_append_right _ (mem_singleton_self op))
    have hc := hholds pre o hpre' hrun
    obtain ⟨b₁', b₂, hb₁', hin₁, hb₂, hseen, hmove⟩ :=
      Observed.move hc (fun call hcall => hpos call (hcall ▸ hmem)) hs
    obtain rfl := some.inj (hb₁.symm.trans hb₁')
    have hle := serialsUsed_le_of_prefix conn.terminal.enableSerial hpre
    have hone : serialsUsed conn.terminal.enableSerial [op] =
      op.serials conn.terminal.enableSerial := by simp [serialsUsed]
    rw [serialsUsed_append, hone] at hle
    have hused := hc.2.1
    obtain ⟨ht₂, hup⟩ := ht.move hin₁ hmove (by omega) fun acked hop =>
      hacks pre acked b₁ o.seen (hop ▸ hpre) ⟨o.conn, hrun, hb₁⟩
    exact ⟨b₂, hb₂, hseen ▸ ht₂, hup⟩
  constructor
  · rintro ⟨htruth, -⟩ pre acked b₁ seen hpre ⟨c, hrun, hb₁⟩
    have hnext : Reaches conn (pre ++ [.scrapMessages acked]) (b₁.scrapMessages acked)
        (seen ++ (b₁.scrapMessages acked).bufMsglink) := by
      refine ⟨c.scrapMessages acked, ?_, by simp [scrapMessages, hb₁]⟩
      rw [run_append, hrun, bind_some, run_cons]
      simp [Observed.step, bufferStep, buffered, scrapMessages, hb₁]
    exact UInt32.le_trans (b₁.le_lastScrapSerial acked).2 (htruth _ _ _ hpre hnext).le_lastSerial
  · intro hacks
    have htruth : ∀ pre o, pre <+: ops → run Observed.step (.start conn) pre = some o →
        ∃ b₁, o.conn.msgBuffer = some b₁ ∧ b₁.Truthful o.seen := by
      intro pre o hpre hrun
      refine run_history (I := fun _ o => ∃ b₁, msgBuffer o.conn = some b₁ ∧
        b₁.Truthful o.seen) (fun pre' op t t' hpre' hrun' ht hs => ?_) ?_ hrun
      · obtain ⟨b₁, hb₁, ht₁⟩ := ht
        obtain ⟨b₂, hb₂, ht₂, -⟩ := hstep hacks pre' op t t' b₁ (hpre'.trans hpre) hrun' hb₁ ht₁ hs
        exact ⟨b₂, hb₂, ht₂⟩
      · exact ⟨b, hb, by simpa [Observed.start, buffered, hb] using htrue⟩
    refine ⟨?_, ?_⟩
    · rintro pre b₁ seen hpre ⟨c, hrun, hb₁⟩
      obtain ⟨b₂, hb₂, ht⟩ := htruth pre _ hpre hrun
      obtain rfl := some.inj (hb₁.symm.trans hb₂)
      exact ht
    · rintro pre op b₁ seen b₂ seen' hpre - ⟨c, hrun, hb₁⟩ ⟨c', hrun', hb₂⟩
      obtain ⟨b₁', hb₁', ht⟩ := htruth pre _ ((prefix_append pre [op]).trans hpre) hrun
      obtain rfl := some.inj (hb₁.symm.trans hb₁')
      rw [run_append, hrun, bind_some, run_cons] at hrun'
      obtain ⟨t, ht', hnil⟩ := bind_eq_some_iff.1 hrun'
      cases hnil
      obtain ⟨b₂', hb₂', -, hup⟩ := hstep hacks pre op _ _ b₁ hpre hrun hb₁ ht ht'
      obtain rfl := some.inj (hb₂.symm.trans hb₂')
      exact hup

end Histories

theorem lastScrapSerial_truthful_one :
    AlwaysTruthful freshSender [.send (callOfType1 true), .send (callOfType1 true),
      .scrapMessages 1] := by
  refine (lastScrapSerial_truthful_iff rfl (inStep_reset _ 0) (truthful_reset _ 0) ?_
    (by decide)).2 ?_
  · intro call hcall
    obtain rfl : call = callOfType1 true := by simpa using hcall
    decide
  · rintro pre acked b seen hpre ⟨c, hrun, hb⟩
    obtain ⟨rfl, rfl⟩ : pre = [.send (callOfType1 true), .send (callOfType1 true)] ∧ acked = 1 := by
      match pre with
      | [] | [_] | _ :: _ :: _ :: _ => simp at hpre
      | [_, _] => simpa [and_assoc] using hpre
    have hlast : (run Observed.step (.start freshSender)
        [.send (callOfType1 true), .send (callOfType1 true)]).bind
          (fun o => o.conn.msgBuffer.map (·.lastSerial)) = some 2 := by decide +kernel
    rw [hrun, bind_some, hb] at hlast
    have htwo : b.lastSerial = 2 := some.inj hlast
    rw [htwo]
    decide

/-- `lastScrapSerial_`, `lastSerial_` and the serials in the buffer. -/
def Connection.scrapState (conn : Connection μ) : Option (UInt32 × UInt32 × List UInt32) :=
  conn.msgBuffer.map fun b => (b.lastScrapSerial, b.lastSerial, b.bufMsglink.map (·.serial))

/-- **A forged acknowledgement** of serial 100.  The value is then above `lastSerial_`, the next
message is in the buffer below it, and the message after that one lowers it. -/
theorem forged_acknowledgement :
    let conn : Connection Unit :=
      { buildConnection openTerminal none with msgBuffer := some (.new 1) }
    let acked := (decode 0 conn (encodeHead 0 msgTypeHeartbeat 0 0 100 0 0) []).bind
      fun (conn, task) => task.map conn.acknowledge
    acked.bind scrapState = some (100, 0, []) ∧
      (acked.bind (run Connection.bufferStep · [.send (callOfType1 true)])).bind
        Connection.scrapState = some (100, 1, [1]) ∧
      (acked.bind (run Connection.bufferStep ·
        [.send (callOfType1 true), .send (callOfType1 true)])).bind
        scrapState = some (1, 2, [2]) := by
  decide +kernel

end Corpc.Message
