/-
# What `MessageTerminal::decode` comes to

`decode` as the decoder of a pipeline, on a connection and the clock.  A frame leads to a task, to
a decode error, or, if it is a system message, to nothing more (`decode_outcome`).
-/

import Corpc.Message.Acknowledge
import Corpc.Pipeline.Upflow

namespace Corpc.Message

open Corpc.Basis Wire Pipeline

variable {μ : Type}

/-- What `decode` leaves in the body buffer: it decrypts in place. -/
def decryptBody (conn : Connection μ) (head body : List UInt8) : List UInt8 :=
  match conn.crypter with
  | some crypter =>
    if 0 ≤ headType head ∧ headFlag head &&& messageFlagCrypt ≠ 0 then crypter.decrypt body
    else body
  | none => body

theorem length_decryptBody (conn : Connection μ) (head body : List UInt8) :
    (decryptBody conn head body).length = body.length := by
  unfold decryptBody
  split
  · split_ifs
    · exact Crypter.length_decrypt ..
    · rfl
  · rfl

/-- `MessageTerminal::decode` in a pipeline; the number is `mtime()`. -/
def messageDecode : DecodeFunction (ℕ × Connection μ) (MessageWorkerTask μ) where
  decode := fun c head body =>
    (decode c.1 c.2 head body).map fun r => ((c.1, r.1), r.2)
  isDecodeError := fun c => c.2.decodeError
  leaves := fun c => decryptBody c.2
  length_leaves := fun c => length_decryptBody c.2

/-- The frame passes every check, and has a body that its type does not provide for. -/
structure UnexpectedBody (conn : Connection μ) (head body : List UInt8) : Prop where
  application : 0 ≤ headType head
  serial : conn.terminal.enableSerial = true → conn.recvSerial + 1 = headSerial head
  crc : conn.terminal.enableRecvCRC = true → headCrc head = checkSum body 0xFFFF
  crypter : headFlag head &&& messageFlagCrypt ≠ 0 → conn.crypter.isSome = true
  registered : ∃ info, conn.terminal.registerMessageMap.lookup (headType head) = some info ∧
    info.banned = false ∧ info.proto = none
  body : body ≠ []

section Decode

variable {conn : Connection μ} {head body : List UInt8}

theorem decodeRegistered_eq_none_iff (reqSerial : UInt32) :
    decodeRegistered conn head body reqSerial = none ↔
      (∃ info, conn.terminal.registerMessageMap.lookup (headType head) = some info ∧
        info.banned = false ∧ info.proto = none) ∧ body ≠ [] := by
  unfold decodeRegistered
  cases hinfo : conn.terminal.registerMessageMap.lookup (headType head) with
  | none =>
    constructor
    · intro h
      dsimp only at h
      split_ifs at h
    · rintro ⟨⟨info, hsome, -⟩, -⟩
      cases hsome
  | some info =>
    dsimp only
    cases hbanned : info.banned with
    | true =>
      constructor
      · nofun
      · rintro ⟨⟨info', hsome, hfalse, -⟩, -⟩
        rw [← Option.some.inj hsome, hbanned] at hfalse
        cases hfalse
    | false =>
      cases hproto : info.proto with
      | some parse =>
        constructor
        · intro h
          dsimp only [Bool.false_eq_true, if_false] at h
          cases hparse : parse body <;> simp [hparse] at h
        · rintro ⟨⟨info', hsome, -, hnone⟩, -⟩
          rw [← Option.some.inj hsome, hproto] at hnone
          cases hnone
      | none =>
        constructor
        · intro h
          refine ⟨⟨info, rfl, hbanned, hproto⟩, ?_⟩
          rintro rfl
          simp at h
        · rintro ⟨-, hbody⟩
          simp [hbody]

theorem decodeBody_eq_none_iff (reqSerial : UInt32) :
    decodeBody conn head body reqSerial = none ↔
      (conn.terminal.enableRecvCRC = true → headCrc head = checkSum body 0xFFFF) ∧
      (headFlag head &&& messageFlagCrypt ≠ 0 → conn.crypter.isSome = true) ∧
      (∃ info, conn.terminal.registerMessageMap.lookup (headType head) = some info ∧
        info.banned = false ∧ info.proto = none) ∧ body ≠ [] := by
  unfold decodeBody
  by_cases hcrc : conn.terminal.enableRecvCRC ∧ headCrc head ≠ checkSum body 0xFFFF
  · rw [if_pos hcrc]
    constructor
    · nofun
    · rintro ⟨hok, -⟩
      exact absurd (hok hcrc.1) hcrc.2
  · have hok : conn.terminal.enableRecvCRC = true → headCrc head = checkSum body 0xFFFF :=
      fun hon => by_contra fun hne => hcrc ⟨hon, hne⟩
    rw [if_neg hcrc]
    by_cases hflag : headFlag head &&& messageFlagCrypt ≠ 0
    · rw [if_pos hflag]
      cases hcrypter : conn.crypter with
      | none =>
        constructor
        · nofun
        · rintro ⟨-, hsome, -⟩
          cases hsome hflag
      | some crypter =>
        -- decryption keeps the length
        have hnil : crypter.decrypt body ≠ [] ↔ body ≠ [] := by
          rw [← List.length_pos_iff, crypter.length_decrypt, List.length_pos_iff]
        rw [decodeRegistered_eq_none_iff, hnil]
        exact ⟨fun h => ⟨hok, fun _ => rfl, h⟩, fun h => h.2.2⟩
    · rw [if_neg hflag, decodeRegistered_eq_none_iff]
      exact ⟨fun h => ⟨hok, fun hne => absurd hne hflag, h⟩, fun h => h.2.2⟩

/-- **The assertion of `decode` fails at the frames with an unexpected body,** and at no others. -/
theorem decode_eq_none_iff (mtime : ℕ) :
    decode mtime conn head body = none ↔ UnexpectedBody conn head body := by
  unfold decode
  by_cases htype : headType head < 0
  · rw [if_pos htype]
    constructor
    · nofun
    · intro h
      exact absurd htype (Int32.not_lt.2 h.application)
  · rw [if_neg htype]
    have happ := Int32.not_lt.1 htype
    by_cases hon : conn.terminal.enableSerial = true
    · rw [if_pos hon]
      dsimp only
      by_cases hserial : conn.recvSerial + 1 ≠ headSerial head
      · rw [if_pos hserial]
        constructor
        · nofun
        · intro h
          exact absurd (h.serial hon) hserial
      · rw [if_neg hserial, decodeBody_eq_none_iff]
        constructor
        · rintro ⟨hcrc, hcrypter, hinfo, hbody⟩
          exact ⟨happ, fun _ => not_not.1 hserial, hcrc, hcrypter, hinfo, hbody⟩
        · intro h
          exact ⟨h.crc, h.crypter, h.registered, h.body⟩
    · rw [if_neg hon, decodeBody_eq_none_iff]
      constructor
      · rintro ⟨hcrc, hcrypter, hinfo, hbody⟩
        exact ⟨happ, fun h => absurd h hon, hcrc, hcrypter, hinfo, hbody⟩
      · intro h
        exact ⟨h.crc, h.crypter, h.registered, h.body⟩

variable {conn' : Connection μ}

theorem decode_outcome {mtime : ℕ} {task : Option (MessageWorkerTask μ)}
    (h : decode mtime conn head body = some (conn', task)) :
    headType head < 0 ∨ task.isSome = true ∨ conn'.decodeError = true := by
  have hbody : ∀ {c : Connection μ} {reqSerial : UInt32},
      decodeBody c head body reqSerial = some (conn', task) →
      task.isSome = true ∨ conn'.decodeError = true := by
    intro c reqSerial hc
    rcases decodeBody_spec hc with ⟨-, rfl, -⟩ | ⟨-, -, hsome⟩
    · exact .inr rfl
    · exact .inl hsome
  unfold decode at h
  dsimp only at h
  split_ifs at h with htype
  · exact .inl htype
  · obtain ⟨rfl, -⟩ := Prod.mk.inj (Option.some.inj h)
    exact .inr (.inr rfl)
  · exact .inr (hbody h)
  · exact .inr (hbody h)

variable {task : MessageWorkerTask μ}

theorem type_decodeRegistered {reqSerial : UInt32}
    (h : decodeRegistered conn head body reqSerial = some (conn', some task)) :
    task.type = headType head := by
  unfold decodeRegistered at h
  split at h
  · split at h
    · cases h
      rfl
    · cases h
  · split at h
    · cases h
      rfl
    · split at h
      · split at h
        · cases h
          rfl
        · cases h
      · split at h
        · cases h
          rfl
        · cases h

theorem type_decodeBody {reqSerial : UInt32}
    (h : decodeBody conn head body reqSerial = some (conn', some task)) :
    task.type = headType head := by
  unfold decodeBody at h
  split_ifs at h
  · cases h
  · split at h
    · cases h
    · exact type_decodeRegistered h
  · exact type_decodeRegistered h

theorem type_decode {mtime : ℕ} (h : decode mtime conn head body = some (conn', some task)) :
    task.type = headType head ∧ (0 ≤ headType head ∨ headType head = msgTypeHeartbeat) := by
  unfold decode at h
  by_cases htype : headType head < 0
  · rw [if_pos htype, decodeSystem] at h
    dsimp only at h
    split_ifs at h with hbeat hserial hjump hold
    · cases h
      exact ⟨hbeat.symm, .inr hbeat⟩
    all_goals cases h
  · rw [if_neg htype] at h
    refine ⟨?_, .inl (Int32.not_lt.1 htype)⟩
    dsimp only at h
    split_ifs at h
    · cases h
    · exact type_decodeBody h
    · exact type_decodeBody h

end Decode

end Corpc.Message
