/-
# Which messages carry a serial

`send` draws a serial for the types above 0 and sends the others under serial 0; `decode` checks the
serial of the types from 0 on.  The two rules differ at type 0: such a message goes out under serial
0, the peer counts it, and drops the connection.
-/

import Corpc.Message.Resend

namespace Corpc.Message

open Corpc.Basis Wire List Option

variable {μ ν : Type}

structure Connection.Listens (recv : Connection ν) (terminal : MessageTerminal ν)
    (crypter : Option Crypter) : Prop where
  terminal : recv.terminal = terminal
  crypter : recv.crypter = crypter
  decodeError : recv.decodeError = false

/-- A receiver with these settings accepts the message of the call: nothing but
the serial can make it refuse it. -/
def Accepts (terminal : MessageTerminal ν) (crypter : Option Crypter) (mtime : ℕ)
    (enc : SendMessageInfo → Connection μ) (call : SendCall) : Prop :=
  ∀ recv : Connection ν, recv.Listens terminal crypter → ∀ serial,
    recv.WouldAccept mtime enc (call.info serial)

/-- `decode` reports a serial mismatch: a data frame that is not the next one. -/
def Connection.Mismatches (recv : Connection ν) (info : SendMessageInfo) : Prop :=
  ¬info.type < 0 ∧ info.serial ≠ recv.recvSerial + 1

section Receiver

variable {mtime : ℕ} {enc : SendMessageInfo → Connection μ} {recv recv' : Connection ν}
  {terminal : MessageTerminal ν} {crypter : Option Crypter} {call : SendCall} {serial : UInt32}

@[simp]
theorem SendCall.info_type (call : SendCall) (serial : UInt32) :
    (call.info serial).type = call.type := rfl

@[simp]
theorem SendCall.info_serial (call : SendCall) (serial : UInt32) :
    (call.info serial).serial = serial := rfl

theorem Connection.Listens.accept_system (h : recv.Listens terminal crypter)
    (ht : call.type < 0) (hj : call.type ≠ msgTypeJumpSerial) (serial : UInt32) :
    ∃ recv', recv.accept mtime enc (call.info serial) = some recv' ∧
      recv'.Listens terminal crypter ∧ recv'.recvSerial = recv.recvSerial := by
  unfold Connection.accept
  generalize hhead : messageHead (enc (call.info serial)) (call.info serial) = head
  have htype : headType head = call.type := by rw [← hhead, headType_messageHead]; rfl
  rw [← htype] at ht hj
  obtain ⟨⟨r, task⟩, hd⟩ : ∃ p, decode mtime recv head
      (encodeBody (enc (call.info serial)) (call.info serial)) = some p := by
    unfold decode
    rw [if_pos ht]
    exact ⟨_, rfl⟩
  obtain ⟨t, rfl⟩ : ∃ t, r = { recv with lastRecvHBTime := t } := by
    rcases decode_system ht hd with ⟨hjump, -⟩ | ⟨hjump, -⟩ | ⟨-, hr⟩
    · exact absurd hjump hj
    · exact absurd hjump hj
    · exact hr
  have hgo : ¬recv.decodeError = true := by
    rw [h.decodeError]
    decide
  rw [hd]
  exact ⟨{ recv with lastRecvHBTime := t }, if_neg hgo, ⟨h.terminal, h.crypter, h.decodeError⟩, rfl⟩

theorem Connection.Listens.of_accept_data (h : recv.Listens terminal crypter)
    (hs : terminal.enableSerial = true) (ht : ¬call.type < 0)
    (ha : recv.accept mtime enc (call.info serial) = some recv') :
    serial = recv.recvSerial + 1 ∧ recv'.Listens terminal crypter ∧ recv'.recvSerial = serial := by
  obtain ⟨⟨r, task⟩, hd, ha⟩ := bind_eq_some_iff.1 ha
  have hneg : ¬headType (messageHead (enc (call.info serial)) (call.info serial)) < 0 := by
    rw [headType_messageHead]
    exact ht
  have hs' : recv.terminal.enableSerial = true := h.terminal ▸ hs
  rcases decode_data hs' hneg hd with ⟨-, -, rfl⟩ | ⟨-, -, hser, rfl⟩
  · simp at ha
  · rw [headSerial_messageHead, SendCall.info_serial] at hser
    have hr : { recv with recvSerial := recv.recvSerial + 1 } = recv' := by
      simpa [h.decodeError] using ha
    subst hr
    exact ⟨hser, ⟨h.terminal, h.crypter, h.decodeError⟩, hser.symm⟩

theorem Connection.Listens.accept_next (h : recv.Listens terminal crypter)
    (hw : Accepts terminal crypter mtime enc call) (hser : serial = recv.recvSerial + 1) :
    ∃ recv', recv.accept mtime enc (call.info serial) = some recv' := by
  have hback : (call.info serial).serial - 1 = recv.recvSerial := by
    rw [SendCall.info_serial, hser]
    simp
  have htaken := hw recv h serial
  unfold Connection.WouldAccept at htaken
  rw [hback] at htaken
  exact isSome_iff_exists.1 htaken

/-- **The receiver refuses an acceptable message exactly for a serial mismatch.** -/
theorem Connection.Listens.accept_eq_none_iff (h : recv.Listens terminal crypter)
    (hs : terminal.enableSerial = true) (hw : Accepts terminal crypter mtime enc call)
    (hj : call.type ≠ msgTypeJumpSerial) :
    recv.accept mtime enc (call.info serial) = none ↔ recv.Mismatches (call.info serial) := by
  unfold Connection.Mismatches
  rw [SendCall.info_type, SendCall.info_serial]
  by_cases ht : call.type < 0
  · obtain ⟨r, hr, -⟩ := h.accept_system ht hj serial
    exact iff_of_false (by rw [hr]; exact some_ne_none r) fun hm => hm.1 ht
  · constructor
    · intro hn
      refine ⟨ht, fun hser => ?_⟩
      obtain ⟨r, hr⟩ := h.accept_next hw hser
      exact some_ne_none r (hr.symm.trans hn)
    · rintro ⟨-, hser⟩
      cases ha : recv.accept mtime enc (call.info serial) with
      | none => rfl
      | some r => exact absurd (h.of_accept_data hs ht ha).1 hser

end Receiver

def OpenSends (calls : List SendCall) : Prop :=
  ∀ call ∈ calls, (call.isOpen₁ = true ∧ call.isOpen₂ = true) ∧ call.type ≠ msgTypeJumpSerial

/-- The serial `send` gives to a message: the next one to a positive type, and 0
to the others. -/
def serialFor (lastSendSerial : UInt32) (call : SendCall) : UInt32 :=
  if 0 < call.type then lastSendSerial + 1 else 0

def lastSerialAfter (lastSendSerial : UInt32) (call : SendCall) : UInt32 :=
  if 0 < call.type then lastSendSerial + 1 else lastSendSerial

theorem Connection.send_of_open {conn : Connection μ} {call : SendCall}
    (hs : conn.terminal.enableSerial = true) (hopen : call.isOpen₁ = true ∧ call.isOpen₂ = true) :
    ∃ conn', conn.send call = some (conn', some (call.info (serialFor conn.lastSendSerial call))) ∧
      conn'.terminal = conn.terminal ∧
      conn'.lastSendSerial = lastSerialAfter conn.lastSendSerial call := by
  unfold Connection.send serialFor lastSerialAfter
  rw [if_pos hopen.1]
  by_cases ht : 0 < call.type
  · have hnumber : conn.number call = (_, if call.isOpen₂ then some _ else none) :=
      if_pos ⟨ht, hs⟩
    rw [hnumber, if_pos hopen.2, if_pos ht, if_pos ht]
    exact ⟨_, rfl, rfl, rfl⟩
  · have hnumber : conn.number call = (conn, if call.isOpen₂ then some _ else none) :=
      if_neg fun h => ht h.1
    rw [hnumber, if_pos hopen.2, if_neg ht, if_neg ht]
    exact ⟨_, rfl, rfl, rfl⟩

/-- The calls go out and are delivered in order; the peer takes every message and
its counter ends at the sender's. -/
def SerialsAgree (mtime : ℕ) (enc : SendMessageInfo → Connection μ) (sender : Connection μ)
    (recv : Connection ν) (calls : List SendCall) : Prop :=
  ∃ sender' infos recv', sender.performAll (calls.map .send) = some (sender', infos) ∧
    run (Connection.accept mtime enc) recv infos = some recv' ∧
    recv'.recvSerial = sender'.lastSendSerial

section Agreement

variable {mtime : ℕ} {enc : SendMessageInfo → Connection μ} {sender : Connection μ}
  {recv : Connection ν} {terminal : MessageTerminal ν} {crypter : Option Crypter}
  {calls : List SendCall}

theorem serialsAgree_cons (mtime : ℕ) (enc : SendMessageInfo → Connection μ)
    (recv : Connection ν) (calls : List SendCall) {call : SendCall}
    (hs : sender.terminal.enableSerial = true) (hopen : call.isOpen₁ = true ∧ call.isOpen₂ = true) :
    ∃ sender', sender'.terminal = sender.terminal ∧
      sender'.lastSendSerial = lastSerialAfter sender.lastSendSerial call ∧
      (SerialsAgree mtime enc sender recv (call :: calls) ↔
        ∃ recv', recv.accept mtime enc (call.info (serialFor sender.lastSendSerial call)) =
          some recv' ∧ SerialsAgree mtime enc sender' recv' calls) := by
  obtain ⟨sender', hsend, hterm, hlast⟩ := Connection.send_of_open hs hopen
  refine ⟨sender', hterm, hlast, ?_⟩
  have hcons : sender.performAll ((call :: calls).map .send) =
      (sender'.performAll (calls.map .send)).map fun p =>
        (p.1, call.info (serialFor sender.lastSendSerial call) :: p.2) := by
    simp [Connection.performAll, Connection.perform, hsend]
  constructor
  · rintro ⟨conn, infos, r, hall, hrun, hr⟩
    rw [hcons] at hall
    obtain ⟨⟨conn₁, rest⟩, hrest, heq⟩ := map_eq_some_iff.1 hall
    obtain ⟨rfl, rfl⟩ := Prod.mk.inj heq
    rw [run_cons] at hrun
    obtain ⟨recv', ha, hrun⟩ := bind_eq_some_iff.1 hrun
    exact ⟨recv', ha, conn₁, rest, r, hrest, hrun, hr⟩
  · rintro ⟨recv', ha, conn, infos, r, hall, hrun, hr⟩
    refine ⟨conn, _ :: infos, r, by rw [hcons, hall]; rfl, ?_, hr⟩
    rw [run_cons, ha]
    exact hrun

theorem not_serialsAgree_ahead (hs : sender.terminal.enableSerial = true)
    (hr : terminal.enableSerial = true) (h : recv.Listens terminal crypter)
    (hrecv : recv.recvSerial = 0) (hsend : sender.lastSendSerial + 1 = 0)
    (hopen : OpenSends calls) : ¬SerialsAgree mtime enc sender recv calls := by
  induction calls generalizing sender recv with
  | nil =>
    rintro ⟨s, infos, r, hall, hrun, heq⟩
    obtain ⟨rfl, rfl⟩ := Prod.mk.inj (some.inj hall)
    cases hrun
    rw [← heq, hrecv] at hsend
    exact absurd hsend (by decide)
  | cons call calls ih =>
    obtain ⟨hcall, hcalls⟩ := forall_mem_cons.1 hopen
    obtain ⟨sender', hterm, hlast, hiff⟩ := serialsAgree_cons mtime enc recv calls hs
      hcall.1
    rw [hiff]
    rintro ⟨recv', ha, hagree⟩
    by_cases hneg : call.type < 0
    · obtain ⟨r, hr', hl, hser⟩ := h.accept_system hneg hcall.2 _
      obtain rfl := some.inj (hr'.symm.trans ha)
      have hpos : ¬0 < call.type := Int32.not_lt.2 (Int32.le_of_lt hneg)
      have hlast' : sender'.lastSendSerial = sender.lastSendSerial := by
        rw [hlast, lastSerialAfter, if_neg hpos]
      exact ih (hterm ▸ hs) hl (hser.trans hrecv) (hlast'.symm ▸ hsend) hcalls hagree
    · -- a data frame carries serial 0 here, numbered or not, and the receiver waits for 1
      have hzero : serialFor sender.lastSendSerial call = 0 := by
        unfold serialFor
        split_ifs
        · exact hsend
        · rfl
      have hser := (h.of_accept_data hr hneg ha).1
      rw [hzero, hrecv] at hser
      exact absurd hser (by decide)

/-- **The two ends agree exactly on sequences without type 0.** -/
theorem serials_agree_iff (hs : sender.terminal.enableSerial = true)
    (hr : recv.terminal.enableSerial = true) (he : recv.decodeError = false)
    (heq : recv.recvSerial = sender.lastSendSerial) (hopen : OpenSends calls)
    (hacc : ∀ call ∈ calls, ¬call.type < 0 → Accepts recv.terminal recv.crypter mtime enc call) :
    SerialsAgree mtime enc sender recv calls ↔ ∀ call ∈ calls, call.type ≠ 0 := by
  have h : recv.Listens recv.terminal recv.crypter := ⟨rfl, rfl, he⟩
  generalize recv.terminal = terminal at hr hacc h
  generalize recv.crypter = crypter at hacc h
  clear he
  induction calls generalizing sender recv with
  | nil =>
    refine iff_of_true ⟨sender, [], recv, rfl, rfl, heq⟩ ?_
    simp
  | cons call calls ih =>
    obtain ⟨hcall, hcalls⟩ := forall_mem_cons.1 hopen
    obtain ⟨hw, hws⟩ := forall_mem_cons.1 hacc
    obtain ⟨sender', hterm, hlast, hiff⟩ := serialsAgree_cons mtime enc recv calls hs
      hcall.1
    have hs' : sender'.terminal.enableSerial = true := hterm ▸ hs
    rw [hiff, forall_mem_cons]
    -- one step taken with the counters still equal leaves the question to the rest
    have hstep : ∀ recv', recv.accept mtime enc
        (call.info (serialFor sender.lastSendSerial call)) = some recv' →
        recv'.Listens terminal crypter → recv'.recvSerial = sender'.lastSendSerial →
        call.type ≠ 0 → ((∃ recv', recv.accept mtime enc
          (call.info (serialFor sender.lastSendSerial call)) = some recv' ∧
            SerialsAgree mtime enc sender' recv' calls) ↔
          call.type ≠ 0 ∧ ∀ c ∈ calls, c.type ≠ 0) := by
      intro recv' ha hl' heq' h0
      have hrest := ih hs' heq' hcalls hws hl'
      constructor
      · rintro ⟨r, hr', hagree⟩
        obtain rfl := some.inj (ha.symm.trans hr')
        exact ⟨h0, hrest.1 hagree⟩
      · rintro ⟨-, hne⟩
        exact ⟨recv', ha, hrest.2 hne⟩
    by_cases hneg : call.type < 0
    · obtain ⟨recv', ha, hl', hser⟩ := h.accept_system hneg hcall.2 _
      have hpos : ¬0 < call.type := Int32.not_lt.2 (Int32.le_of_lt hneg)
      have heq' : recv'.recvSerial = sender'.lastSendSerial := by
        rw [hser, hlast, lastSerialAfter, if_neg hpos, heq]
      exact hstep recv' ha hl' heq' fun h0 => absurd (h0 ▸ hneg) (by decide)
    · by_cases hpos : 0 < call.type
      · have hnext : serialFor sender.lastSendSerial call = recv.recvSerial + 1 := by
          rw [serialFor, if_pos hpos, heq]
        have hmatch : recv.accept mtime enc
            (call.info (serialFor sender.lastSendSerial call)) ≠ none := fun hn =>
          ((h.accept_eq_none_iff hr (hw hneg) hcall.2).1 hn).2 hnext
        obtain ⟨recv', ha⟩ := ne_none_iff_exists'.1 hmatch
        obtain ⟨-, hl', hser⟩ := h.of_accept_data hr hneg ha
        have heq' : recv'.recvSerial = sender'.lastSendSerial := by
          rw [hser, hlast, serialFor, lastSerialAfter, if_pos hpos, if_pos hpos]
        exact hstep recv' ha hl' heq' fun h0 => absurd (h0 ▸ hpos) (by decide)
      · -- type 0: refused, or counted as serial 0 after the last serial of all
        have h0 : call.type = 0 := Int32.le_antisymm (Int32.not_lt.1 hpos) (Int32.not_lt.1 hneg)
        refine iff_of_false ?_ fun hne => hne.1 h0
        rintro ⟨recv', ha, hagree⟩
        obtain ⟨hnext, hl', hser⟩ := h.of_accept_data hr hneg ha
        rw [serialFor, if_neg hpos] at hnext hser
        have hmax : sender'.lastSendSerial + 1 = 0 := by
          rw [hlast, lastSerialAfter, if_neg hpos, ← heq, ← hnext]
        exact not_serialsAgree_ahead hs' hr hl' hser hmax hcalls hagree

/-- `send` of an empty message of any type on an open connection. -/
def callOfType (type : Int32) (needBuffer : Bool) : SendCall :=
  ⟨true, true, type, false, needBuffer, 0, .raw none⟩

/-- **A message of type 0 ends the connection**: it has serial 0, and the fresh peer waits for
serial 1. -/
theorem type_zero_mismatches :
    (freshSender.performAll [.send (callOfType 0 true)]).map (·.2) =
        some [(callOfType 0 true).info 0] ∧
      freshReceiver.Mismatches ((callOfType 0 true).info 0) ∧
      decode 0 freshReceiver (messageHead freshSender ((callOfType 0 true).info 0))
          (encodeBody freshSender ((callOfType 0 true).info 0)) =
        some ({ freshReceiver with recvSerial := 1, decodeError := true }, none) := by
  refine ⟨by decide +kernel, ⟨by decide, by decide⟩, rfl⟩

theorem openTerminal_accepts {type : Int32} (ht : ¬type < 0) (needBuffer : Bool) :
    Accepts openTerminal none 0 (fun _ => freshSender) (callOfType type needBuffer) := by
  intro recv h serial
  have hflag : (0 : UInt16) &&& messageFlagCrypt = 0 := by decide
  simp [Connection.WouldAccept, Connection.accept, decode, SendCall.info, callOfType, ht,
    h.terminal, openTerminal, decodeBody, messageHead, hflag, decodeRegistered, h.decodeError]

/-- `serials_agree_iff` at a kept message, a heartbeat, an unkept message and a
system message of another negative type. -/
theorem serials_agree_mixed :
    SerialsAgree 0 (fun _ => freshSender) freshSender freshReceiver
      [callOfType 7 true, callOfType msgTypeHeartbeat false, callOfType 8 false,
        callOfType (-3) true] := by
  refine (serials_agree_iff rfl rfl rfl rfl ?_ ?_).2 ?_
  · unfold OpenSends
    decide
  · intro call hcall ht
    obtain ⟨type, needBuffer, rfl⟩ : ∃ type needBuffer, call = callOfType type needBuffer := by
      simp only [mem_cons, not_mem_nil, or_false] at hcall
      rcases hcall with rfl | rfl | rfl | rfl <;> exact ⟨_, _, rfl⟩
    exact openTerminal_accepts ht needBuffer
  · decide

end Agreement

end Corpc.Message
