/-
# What the checksum of a body protects from

Source: `corpc_message_terminal.cpp`, the checksum of `MessageTerminal::decode`.
-/

import Corpc.Message.Terminal
import Corpc.Wire.CrcBits

namespace Corpc.Message

open Corpc.Basis Wire Wire.CRC

variable {μ : Type}

theorem decodeBody_of_crc_ne {conn : Connection μ} {head body : List UInt8}
    (hcrc : conn.terminal.enableRecvCRC = true) (hne : headCrc head ≠ checkSum body 0xFFFF)
    (reqSerial : UInt32) :
    decodeBody conn head body reqSerial = some (conn.setDecodeError, none) :=
  if_pos ⟨hcrc, hne⟩

theorem decode_of_crc_ne {conn : Connection μ} {head body : List UInt8}
    (hcrc : conn.terminal.enableRecvCRC = true) (htype : 0 ≤ headType head)
    (hne : headCrc head ≠ checkSum body 0xFFFF) (mtime : ℕ) :
    ∃ conn', decode mtime conn head body = some (conn', none) ∧ conn'.decodeError = true := by
  unfold decode
  rw [if_neg (Int32.not_lt.2 htype)]
  dsimp only
  -- a serial that does not fit is refused before, and this one because of its checksum
  split_ifs
  · exact ⟨_, rfl, rfl⟩
  · exact ⟨_, decodeBody_of_crc_ne (by exact hcrc) hne _, rfl⟩
  · exact ⟨_, decodeBody_of_crc_ne hcrc hne _, rfl⟩

/-- **A burst is detected**: `decode` refuses a message whose body was altered within 16 consecutive
bits. -/
theorem burst_refused {body altered : List UInt8} (hlen : body.length = altered.length)
    (hne : body ≠ altered) (hburst : DifferWithin 16 body altered) :
    (∀ crc16, checkSum body crc16 ≠ checkSum altered crc16) ∧
    ∀ (mtime : ℕ) (conn : Connection μ) (head : List UInt8),
      conn.terminal.enableRecvCRC = true → headCrc head = checkSum body 0xFFFF →
      0 ≤ headType head →
      ∃ conn', decode mtime conn head altered = some (conn', none) ∧ conn'.decodeError = true := by
  have hdiffer := checkSum_ne_of_burst hlen hne hburst
  refine ⟨hdiffer, fun mtime conn head hcrc hhead htype => ?_⟩
  refine decode_of_crc_ne hcrc htype ?_ mtime
  rw [hhead]
  exact hdiffer 0xFFFF

/-- Two neighbouring bytes hold a burst. -/
theorem differWithin_bytes (pre post : List UInt8) {mid mid' : List UInt8} (hmid : mid.length ≤ 2)
    (hlen : mid.length = mid'.length) :
    DifferWithin 16 (pre ++ mid ++ post) (pre ++ mid' ++ post) := by
  have hbits : ∀ xs ys, bits (xs ++ ys) = bits xs ++ bits ys := by simp [bits]
  refine ⟨8 * pre.length, fun i hi => ?_⟩
  by_contra hout
  refine hi ?_
  simp only [hbits]
  by_cases hlow : i < 8 * pre.length
  · simp [List.getElem?_append, length_bits, hlow]
  · rw [List.getElem?_append_right, List.getElem?_append_right] <;>
      simp only [List.length_append, length_bits, hlen] <;> omega

/-- A connection that checks checksums and no serials. -/
def checkingConn : Connection Unit where
  terminal := ⟨true, true, false, [], true⟩
  crypter := none
  msgBuffer := none
  recvSerial := 0
  lastSendSerial := 0
  decodeError := false
  lastRecvHBTime := 0

/-- The head of a body. -/
def headOf (type : Int32) (body : List UInt8) : List UInt8 :=
  encodeHead body.length type 0 0 0 0 (checkSum body 0xFFFF)

theorem burst_refused_lowBit : checkSum [9, 1, 2, 7] 0 ≠ checkSum [9, 0xFE, 0xFD, 7] 0 ∧
    (decode 5 checkingConn (headOf 3 [9, 1, 2, 7]) [9, 1, 2, 7]).map (·.1.decodeError) =
      some false ∧
    ∃ conn', decode 5 checkingConn (headOf 3 [9, 1, 2, 7]) [9, 0xFE, 0xFD, 7] = some (conn', none) ∧
      conn'.decodeError = true := by
  have hne : ([9, 1, 2, 7] : List UInt8) ≠ [9, 0xFE, 0xFD, 7] := by decide
  have hburst : DifferWithin 16 [9, 1, 2, 7] [9, 0xFE, 0xFD, 7] :=
    @differWithin_bytes [9] [7] [1, 2] [0xFE, 0xFD] (by decide) rfl
  have hrefused := @burst_refused Unit [9, 1, 2, 7] [9, 0xFE, 0xFD, 7] rfl hne hburst
  refine ⟨hrefused.1 0, by decide +kernel, hrefused.2 5 checkingConn _ rfl ?_ ?_⟩
  · exact headCrc_encodeHead ..
  · rw [headOf, headType_encodeHead]
    decide

/-- **A control message is not checked**: a heartbeat with an altered body is taken. -/
theorem altered_heartbeat_taken : checkingConn.terminal.enableRecvCRC = true ∧
    DifferWithin 16 [0] [1] ∧
    headCrc (headOf msgTypeHeartbeat [0]) = checkSum [0] 0xFFFF ∧
    ∃ conn', decode 5 checkingConn (headOf msgTypeHeartbeat [0]) [1] = some (conn', none) ∧
      conn'.decodeError = false ∧ conn'.lastRecvHBTime = 5 := by
  have hburst : DifferWithin 16 [0] [1] := @differWithin_bytes [] [] [0] [1] (by decide) rfl
  refine ⟨rfl, hburst, headCrc_encodeHead .., ?_⟩
  have htype : headType (headOf msgTypeHeartbeat [0]) = msgTypeHeartbeat := headType_encodeHead ..
  refine ⟨{ checkingConn with lastRecvHBTime := 5 }, ?_, rfl, rfl⟩
  rw [decode, if_pos (by rw [htype]; decide), decodeSystem, if_pos htype]
  rfl

end Corpc.Message
