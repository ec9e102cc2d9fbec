/-
# The buffer in step with its connection

What a call of `send`, `scrapMessages` or `resetMsgBuffer` does to the buffer of sent messages
depends on the settings, on the connection being open and on `needBuffer`, and comes to one of four
things (`BufferMove`): the next serial is recorded, nothing happens, messages are scrapped, or the
buffer is emptied.
-/

import Corpc.Basis.Run
import Corpc.Message.Terminal

namespace Corpc.Message

open Corpc.Basis Wire List Option Nat UInt32

variable {μ : Type}

def Connection.resetMsgBuffer (conn : Connection μ) : Connection μ :=
  { conn with msgBuffer := conn.msgBuffer.map (·.reset conn.lastSendSerial) }

inductive BufferOp
  | send (call : SendCall)
  | scrapMessages (serial : UInt32)
  | resetMsgBuffer
  deriving DecidableEq

/-- The connection after one of them, `none` where an assertion fails. -/
def Connection.bufferStep (conn : Connection μ) : BufferOp → Option (Connection μ)
  | .send call => (conn.send call).map Prod.fst
  | .scrapMessages serial => some (conn.scrapMessages serial)
  | .resetMsgBuffer => some conn.resetMsgBuffer

def Connection.buffered (conn : Connection μ) : List SendMessageInfo :=
  conn.msgBuffer.elim [] (·.bufMsglink)

/-- `send` draws a serial for a message of positive type: a closed connection does so only for a
message to be kept. -/
def SendCall.takesSerial (enableSerial : Bool) (call : SendCall) : Bool :=
  enableSerial && (call.isOpen₁ || call.needBuffer)

def BufferOp.serials (enableSerial : Bool) : BufferOp → ℕ
  | .send call => if call.takesSerial enableSerial then 1 else 0
  | _ => 0

def serialsUsed (enableSerial : Bool) (ops : List BufferOp) : ℕ :=
  (ops.map (BufferOp.serials enableSerial)).sum

def Positive (ops : List BufferOp) : Prop :=
  ∀ call, BufferOp.send call ∈ ops → 0 < call.type

/-- What an operation makes of a buffer and the last serial of the connection. -/
inductive BufferMove (enableSerial : Bool) (b : MessageBuffer) (serial : UInt32) :
    BufferOp → MessageBuffer → UInt32 → Prop
  | record (call : SendCall) : call.takesSerial enableSerial = true →
      BufferMove enableSerial b serial (.send call)
        (recordSend call.needBuffer (call.info (serial + 1)) b) (serial + 1)
  | nothing (call : SendCall) : call.takesSerial enableSerial = false →
      BufferMove enableSerial b serial (.send call) b serial
  | scrap (acked : UInt32) :
      BufferMove enableSerial b serial (.scrapMessages acked) (b.scrapMessages acked) serial
  | reset : BufferMove enableSerial b serial .resetMsgBuffer (b.reset serial) serial

variable {enableSerial : Bool}

theorem BufferMove.send {b b' : MessageBuffer} {serial serial' : UInt32}
    {call : SendCall} (h : BufferMove enableSerial b serial (.send call) b' serial') :
    (call.takesSerial enableSerial = true →
      b' = recordSend call.needBuffer (call.info (serial + 1)) b ∧ serial' = serial + 1) ∧
      (call.takesSerial enableSerial = false → b' = b ∧ serial' = serial) := by
  cases h with
  | record _ htakes | nothing _ htakes => simp [htakes]

section Moves

variable {conn conn' : Connection μ} {b : MessageBuffer} {op : BufferOp}

/-- **What an operation does.**  The buffer stays with the connection, which keeps its settings. -/
theorem Connection.bufferStep_move (hb : conn.msgBuffer = some b)
    (hpos : ∀ call, op = .send call → 0 < call.type) (h : conn.bufferStep op = some conn') :
    conn'.terminal = conn.terminal ∧ ∃ b', conn'.msgBuffer = some b' ∧
      BufferMove conn.terminal.enableSerial b conn.lastSendSerial op b' conn'.lastSendSerial := by
  cases op with
  | scrapMessages acked =>
    cases h
    exact ⟨rfl, _, by simp [Connection.scrapMessages, hb], .scrap acked⟩
  | resetMsgBuffer =>
    cases h
    exact ⟨rfl, _, by simp [Connection.resetMsgBuffer, hb], .reset⟩
  | send call =>
    have ht : 0 < call.type := hpos call rfl
    have hneg : ¬call.type < 0 := Int32.not_lt.2 (Int32.le_of_lt ht)
    obtain ⟨⟨c, out⟩, hsend, rfl⟩ := map_eq_some_iff.1 h
    have hnumber : conn.terminal.enableSerial = true → (call.isOpen₁ || call.needBuffer) = true →
        conn.send call = some (conn.number call) := by
      intro hon htakes
      unfold Connection.send
      cases hopen : call.isOpen₁ with
      | true => rfl
      | false =>
        rw [hopen, Bool.false_or] at htakes
        simp [hneg, hb, hon, htakes]
    cases htakes : call.takesSerial conn.terminal.enableSerial with
    | true =>
      obtain ⟨hon, hcall⟩ := Bool.and_eq_true_iff.1 htakes
      have hc : c = { conn with
          lastSendSerial := conn.lastSendSerial + 1
          msgBuffer := conn.msgBuffer.map
            (recordSend call.needBuffer (call.info (conn.lastSendSerial + 1))) } := by
        have heq := congrArg Prod.fst (some.inj (hsend.symm.trans (hnumber hon hcall)))
        rw [Connection.number, if_pos ⟨ht, hon⟩] at heq
        exact heq
      subst hc
      exact ⟨rfl, _, by rw [hb]; rfl, .record call htakes⟩
    | false =>
      have hsame : c = conn := by
        unfold Connection.send at hsend
        cases hon : conn.terminal.enableSerial with
        | true =>
          obtain ⟨hopen, hkeep⟩ : call.isOpen₁ = false ∧ call.needBuffer = false := by
            simpa [SendCall.takesSerial, hon] using htakes
          simp only [hopen, hkeep, hneg, hb, hon] at hsend
          exact ((Prod.mk.inj (some.inj hsend)).1).symm
        | false =>
          cases hopen : call.isOpen₁ with
          | true =>
            simp only [hopen, if_true, Connection.number, hon, Bool.false_eq_true,
              and_false, if_false] at hsend
            exact ((Prod.mk.inj (Option.some.inj hsend)).1).symm
          | false => simp [hopen, hneg, hb, hon] at hsend
      subst hsame
      exact ⟨rfl, b, hb, .nothing call htakes⟩

theorem Connection.bufferStep_isSome
    (hon : ∀ call, op = .send call → conn.terminal.enableSerial = true ∨ call.isOpen₁ = true) :
    (conn.bufferStep op).isSome = true := by
  cases op with
  | scrapMessages acked | resetMsgBuffer => rfl
  | send call =>
    simp only [Connection.bufferStep, isSome_map]
    unfold Connection.send
    rcases hon call rfl with hon | hopen
    · split_ifs <;> simp_all
    · rw [if_pos hopen]
      rfl

end Moves

structure MessageBuffer.InStep (b : MessageBuffer) (serial : UInt32) : Prop where
  broken : b.broken = false
  lastSerial : b.lastSerial = serial
  keys : b.bufMsgMap.Perm (b.bufMsglink.map (·.serial))
  increasing : b.bufMsglink.Pairwise fun m m' => m.serial < m'.serial
  bounded : ∀ m ∈ b.bufMsglink, m.serial ≤ serial
  size : 0 < b.maxMsgNum → b.bufMsglink.length ≤ b.maxMsgNum.toNat

section InStep

variable {b : MessageBuffer} {serial : UInt32}

theorem inStep_reset (b : MessageBuffer) (serial : UInt32) : (b.reset serial).InStep serial where
  broken := rfl
  lastSerial := rfl
  keys := .refl _
  increasing := .nil
  bounded := nofun
  size := fun _ => zero_le _

theorem toNat_next (h : serial.toNat + 1 < 2 ^ 32) : (serial + 1).toNat = serial.toNat + 1 := by
  rw [UInt32.toNat_add]
  exact Nat.mod_eq_of_lt h

theorem lt_next (h : serial.toNat + 1 < 2 ^ 32) {x : UInt32} (hx : x ≤ serial) :
    x < serial + 1 := by
  rw [lt_iff_toNat_lt, toNat_next h]
  exact lt_succ_of_le (le_iff_toNat_le.1 hx)

def MessageBuffer.dropFirst (b : MessageBuffer) (m : SendMessageInfo)
    (rest : List SendMessageInfo) : MessageBuffer :=
  { b with lastScrapSerial := m.serial, bufMsgMap := b.bufMsgMap.erase m.serial,
           bufMsglink := rest }

section

variable (h : b.InStep serial)
include h

theorem MessageBuffer.InStep.evict_cases :
    b.evict = b ∧ (0 < b.maxMsgNum → b.bufMsglink.length < b.maxMsgNum.toNat) ∨
      ∃ m rest, b.bufMsglink = m :: rest ∧ 0 < b.maxMsgNum ∧
        b.bufMsglink.length = b.maxMsgNum.toNat ∧ b.evict = b.dropFirst m rest := by
  have hlen : b.bufMsgMap.length = b.bufMsglink.length := by
    rw [h.keys.length_eq, length_map]
  unfold MessageBuffer.evict
  rw [hlen]
  split_ifs with hfull
  · refine .inr ?_
    have hpos : 0 < b.maxMsgNum.toNat := lt_iff_toNat_lt.1 hfull.1
    cases hlink : b.bufMsglink with
    | nil =>
      rw [hlink, length_nil] at hfull
      omega
    | cons m rest =>
      have hsize := h.size hfull.1
      rw [hlink] at hfull hsize
      exact ⟨m, rest, rfl, hfull.1, le_antisymm hsize hfull.2, rfl⟩
  · exact .inl ⟨rfl, fun hpos => not_le.1 fun hle => hfull ⟨hpos, hle⟩⟩

variable {m : SendMessageInfo}

theorem MessageBuffer.InStep.dropFirst
    {rest : List SendMessageInfo} (hlink : b.bufMsglink = m :: rest) :
    (b.dropFirst m rest).InStep serial := by
  obtain ⟨hbr, hlast, hkeys, hinc, hle, hsize⟩ := h
  rw [hlink] at hkeys hinc hle hsize
  refine ⟨hbr, hlast, ?_, (pairwise_cons.1 hinc).2,
    fun m' hm' => hle m' (mem_cons_of_mem m hm'), fun hpos => ?_⟩
  · simpa [MessageBuffer.dropFirst] using hkeys.erase m.serial
  · exact le_of_succ_le (hsize hpos)

theorem MessageBuffer.InStep.evict :
    b.evict.InStep serial ∧
      (0 < b.evict.maxMsgNum → b.evict.bufMsglink.length < b.evict.maxMsgNum.toNat) := by
  rcases h.evict_cases with ⟨heq, hroom⟩ | ⟨m, rest, hlink, hpos, hlen, heq⟩
  · rw [heq]
    exact ⟨h, hroom⟩
  · rw [heq]
    refine ⟨h.dropFirst hlink, fun _ => ?_⟩
    rw [hlink, length_cons] at hlen
    exact lt_of_succ_le (le_of_eq hlen)

theorem MessageBuffer.InStep.insertMessage_eq (hm : m.serial = serial + 1) :
    b.insertMessage m = (true, { b.evict with
      bufMsglink := b.evict.bufMsglink ++ [m], bufMsgMap := b.evict.bufMsgMap.insert m.serial,
      lastSerial := m.serial }) := by
  simp [MessageBuffer.insertMessage, h.broken, hm, h.lastSerial]

theorem MessageBuffer.InStep.jumpToSerial_eq :
    b.jumpToSerial (serial + 1) = (true, { b with lastSerial := serial + 1 }) := by
  simp [MessageBuffer.jumpToSerial, h.broken, h.lastSerial]

theorem MessageBuffer.InStep.insertMessage (hw : serial.toNat + 1 < 2 ^ 32)
    (hm : m.serial = serial + 1) : (b.insertMessage m).2.InStep (serial + 1) := by
  rw [h.insertMessage_eq hm]
  obtain ⟨he, hroom⟩ := h.evict
  have hlt : ∀ m' ∈ b.evict.bufMsglink, m'.serial < m.serial := fun m' hm' =>
    hm ▸ lt_next hw (he.bounded m' hm')
  refine ⟨he.broken, hm, ?_, ?_, ?_, fun hpos => ?_⟩
  · have hnew : m.serial ∉ b.evict.bufMsgMap := by
      intro hmem
      obtain ⟨m', hm', heq⟩ := mem_map.1 (he.keys.mem_iff.1 hmem)
      exact UInt32.ne_of_lt (hlt m' hm') heq
    dsimp only
    rw [insert_of_not_mem hnew, map_append]
    exact (he.keys.cons m.serial).trans (perm_append_singleton _ _).symm
  · refine pairwise_append.2 ⟨he.increasing, pairwise_singleton .., ?_⟩
    rintro m' hm' x hx
    obtain rfl := mem_singleton.1 hx
    exact hlt m' hm'
  · intro m' hm'
    rcases mem_append.1 hm' with hm' | hm'
    · exact UInt32.le_of_lt (hm ▸ hlt m' hm')
    · rw [List.mem_singleton.1 hm', hm]
      exact UInt32.le_refl _
  · rw [List.length_append]
    exact hroom hpos

theorem MessageBuffer.InStep.recordSend (hw : serial.toNat + 1 < 2 ^ 32) (call : SendCall) :
    (recordSend call.needBuffer (call.info (serial + 1)) b).InStep (serial + 1) := by
  unfold Message.recordSend
  split_ifs
  · exact h.insertMessage hw rfl
  · rw [show (call.info (serial + 1)).serial = serial + 1 from rfl, h.jumpToSerial_eq]
    exact ⟨h.broken, rfl, h.keys, h.increasing,
      fun m hm => UInt32.le_of_lt (lt_next hw (h.bounded m hm)), h.size⟩

theorem MessageBuffer.InStep.maxMsgNum_recordSend (call : SendCall) :
    (Message.recordSend call.needBuffer (call.info (serial + 1)) b).maxMsgNum = b.maxMsgNum := by
  unfold Message.recordSend
  split_ifs
  · rw [h.insertMessage_eq rfl]
    rcases h.evict_cases with ⟨heq, -⟩ | ⟨m, rest, -, -, -, heq⟩
    · rw [heq]
    · rw [heq]
      rfl
  · rw [show (call.info (serial + 1)).serial = serial + 1 from rfl, h.jumpToSerial_eq]

end

theorem perm_scrapLoop (acked : UInt32) {link : List SendMessageInfo} {keys : List UInt32}
    (h : keys.Perm (link.map (·.serial))) :
    (scrapLoop acked link keys).2.Perm ((scrapLoop acked link keys).1.map (·.serial)) := by
  induction link generalizing keys with
  | nil => exact h
  | cons m rest ih =>
    unfold scrapLoop
    split_ifs
    · exact h
    · exact ih (by simpa using h.erase m.serial)

theorem MessageBuffer.InStep.scrapMessages (h : b.InStep serial) (acked : UInt32) :
    (b.scrapMessages acked).InStep serial := by
  have hsub : ((b.scrapMessages acked).bufMsglink).Sublist b.bufMsglink := by
    rw [b.scrapMessages_bufMsglink]
    exact dropWhile_sublist _
  refine ⟨h.broken, h.lastSerial, perm_scrapLoop acked h.keys, h.increasing.sublist hsub,
    fun m hm => h.bounded m (hsub.subset hm), fun hpos => ?_⟩
  exact le_trans hsub.length_le (h.size hpos)

theorem MessageBuffer.InStep.mem_scrapMessages (h : b.InStep serial) {acked : UInt32}
    {m : SendMessageInfo} :
    m ∈ (b.scrapMessages acked).bufMsglink ↔ m ∈ b.bufMsglink ∧ acked < m.serial := by
  rw [b.scrapMessages_bufMsglink]
  obtain ⟨-, -, -, hinc, -, -⟩ := h
  generalize b.bufMsglink = link at hinc ⊢
  induction link with
  | nil => simp
  | cons x rest ih =>
    obtain ⟨hx, hrest⟩ := pairwise_cons.1 hinc
    by_cases hle : x.serial ≤ acked
    · rw [dropWhile_cons_of_pos (by simpa using hle), ih hrest, mem_cons]
      refine ⟨fun hm => ⟨.inr hm.1, hm.2⟩, fun hm => ⟨hm.1.resolve_left ?_, hm.2⟩⟩
      rintro rfl
      exact UInt32.not_lt.2 hle hm.2
    · have hlt : acked < x.serial := UInt32.not_le.1 hle
      rw [List.dropWhile_cons_of_neg (by simpa using hlt)]
      refine ⟨fun hm => ⟨hm, ?_⟩, fun hm => hm.1⟩
      rcases mem_cons.1 hm with rfl | hm
      · exact hlt
      · exact UInt32.lt_trans hlt (hx m hm)

theorem MessageBuffer.InStep.move {op : BufferOp} {b' : MessageBuffer}
    {serial' : UInt32} (h : b.InStep serial) (hm : BufferMove enableSerial b serial op b' serial')
    (hw : serial.toNat + op.serials enableSerial < 2 ^ 32) :
    b'.InStep serial' ∧ serial'.toNat = serial.toNat + op.serials enableSerial := by
  cases hm with
  | record call htakes =>
    have hone : (BufferOp.send call).serials enableSerial = 1 := if_pos htakes
    rw [hone] at hw ⊢
    exact ⟨h.recordSend hw call, toNat_next hw⟩
  | nothing call htakes =>
    have hzero : (BufferOp.send call).serials enableSerial = 0 :=
      if_neg (by rw [htakes]; exact Bool.false_ne_true)
    rw [hzero]
    exact ⟨h, rfl⟩
  | scrap acked => exact ⟨h.scrapMessages acked, rfl⟩
  | reset => exact ⟨inStep_reset b serial, rfl⟩

end InStep

def Connection.Holds (conn : Connection μ) (enableSerial : Bool) (used : ℕ) : Prop :=
  conn.terminal.enableSerial = enableSerial ∧ conn.lastSendSerial.toNat = used ∧
    ∃ b, conn.msgBuffer = some b ∧ b.InStep conn.lastSendSerial

theorem serialsUsed_append (enableSerial : Bool) (ops ops' : List BufferOp) :
    serialsUsed enableSerial (ops ++ ops') =
      serialsUsed enableSerial ops + serialsUsed enableSerial ops' := by
  simp [serialsUsed]

theorem serialsUsed_le_of_prefix (enableSerial : Bool) {ops ops' : List BufferOp}
    (h : ops <+: ops') : serialsUsed enableSerial ops ≤ serialsUsed enableSerial ops' := by
  obtain ⟨rest, rfl⟩ := h
  rw [serialsUsed_append]
  exact Nat.le_add_right ..

theorem Connection.Holds.run {conn conn' : Connection μ} {used : ℕ}
    {ops : List BufferOp} (h : conn.Holds enableSerial used) (hpos : Positive ops)
    (hw : used + serialsUsed enableSerial ops < 2 ^ 32)
    (hrun : run Connection.bufferStep conn ops = some conn') :
    conn'.Holds enableSerial (used + serialsUsed enableSerial ops) := by
  refine run_history (I := fun pre c => Connection.Holds c enableSerial
    (used + serialsUsed enableSerial pre)) (fun pre op c c' hpre _ hc hstep => ?_) h hrun
  obtain ⟨hon, hused, b, hb, hin⟩ := hc
  have hmem : op ∈ ops := hpre.subset (mem_append_right _ (mem_singleton_self op))
  obtain ⟨hterm, b', hb', hmove⟩ := c.bufferStep_move hb
    (fun call hcall => hpos call (hcall ▸ hmem)) hstep
  have hle := serialsUsed_le_of_prefix enableSerial hpre
  rw [serialsUsed_append] at hle ⊢
  have hone : serialsUsed enableSerial [op] = op.serials enableSerial := by simp [serialsUsed]
  rw [hone] at hle ⊢
  rw [hon] at hmove
  obtain ⟨hin', hserial⟩ := hin.move hmove (by omega)
  exact ⟨hterm ▸ hon, by omega, b', hb', hin'⟩

end Corpc.Message
