/-
# The buffer of sent messages

`MessageBuffer` in `corpc_message_buffer.cpp`: the messages a sender keeps until the peer
acknowledges them, to be sent again after a reconnect.

Serials are `uint32_t` and wrap around.  Comparisons of serials are the plain
ones of `UInt32`, as in the source.
-/

import Corpc.Wire.Define

namespace Corpc.Message

open Wire

structure MessageBuffer where
  bufMsglink : List SendMessageInfo
  bufMsgMap : List UInt32
  broken : Bool
  maxMsgNum : UInt32
  lastSerial : UInt32
  lastScrapSerial : UInt32
  deriving DecidableEq, Repr

/-- `MessageBuffer::MessageBuffer(maxMsgNum)`; `0` means no limit. -/
def MessageBuffer.new (maxMsgNum : UInt32) : MessageBuffer :=
  ⟨[], [], false, maxMsgNum, 0, 0⟩

def MessageBuffer.reset (b : MessageBuffer) (serial : UInt32) : MessageBuffer :=
  { b with broken := false, bufMsglink := [], bufMsgMap := [],
           lastSerial := serial, lastScrapSerial := serial }

/-- The first block of `insertMessage`: a full buffer drops its oldest message.
The map has a key for each message of the list, so a full buffer has one. -/
def MessageBuffer.evict (b : MessageBuffer) : MessageBuffer :=
  if 0 < b.maxMsgNum ∧ b.maxMsgNum.toNat ≤ b.bufMsgMap.length then
    match b.bufMsglink with
    | [] => b
    | m :: rest => { b with lastScrapSerial := m.serial, bufMsgMap := b.bufMsgMap.erase m.serial,
                            bufMsglink := rest }
  else b

def MessageBuffer.breakDown (b : MessageBuffer) : MessageBuffer :=
  { b with broken := true, bufMsglink := [], bufMsgMap := [] }

def MessageBuffer.insertMessage (b : MessageBuffer) (msg : SendMessageInfo) :
    Bool × MessageBuffer :=
  if b.broken then (false, b)
  else
    let b := b.evict
    if msg.serial ≠ b.lastSerial + 1 then (false, b.breakDown)
    else (true, { b with bufMsglink := b.bufMsglink ++ [msg],
                         bufMsgMap := b.bufMsgMap.insert msg.serial,
                         lastSerial := msg.serial })

def MessageBuffer.jumpToSerial (b : MessageBuffer) (serial : UInt32) : Bool × MessageBuffer :=
  if b.broken then (false, b)
  else if serial ≠ b.lastSerial + 1 then (false, b.breakDown)
  else (true, { b with lastSerial := serial })

/-- The loop of `scrapMessages`: it erases from the front and stops at the first
serial above the acknowledged one. -/
def scrapLoop (serial : UInt32) :
    List SendMessageInfo → List UInt32 → List SendMessageInfo × List UInt32
  | [], keys => ([], keys)
  | m :: rest, keys =>
    if serial < m.serial then (m :: rest, keys) else scrapLoop serial rest (keys.erase m.serial)

def MessageBuffer.scrapMessages (b : MessageBuffer) (serial : UInt32) : MessageBuffer :=
  { b with bufMsglink := (scrapLoop serial b.bufMsglink b.bufMsgMap).1,
           bufMsgMap := (scrapLoop serial b.bufMsglink b.bufMsgMap).2,
           lastScrapSerial := if b.lastScrapSerial < serial then serial else b.lastScrapSerial }

theorem scrapLoop_fst (serial : UInt32) (link : List SendMessageInfo) (keys : List UInt32) :
    (scrapLoop serial link keys).1 = link.dropWhile fun m => m.serial ≤ serial := by
  induction link generalizing keys with
  | nil => rfl
  | cons m rest ih =>
    by_cases h : serial < m.serial
    · simp [scrapLoop, h]
    · simp [scrapLoop, h, UInt32.not_lt.1 h, ih]

@[simp]
theorem MessageBuffer.scrapMessages_bufMsglink (b : MessageBuffer) (serial : UInt32) :
    (b.scrapMessages serial).bufMsglink = b.bufMsglink.dropWhile fun m => m.serial ≤ serial :=
  scrapLoop_fst serial _ _

@[simp]
theorem MessageBuffer.evict_lastSerial (b : MessageBuffer) :
    b.evict.lastSerial = b.lastSerial := by
  unfold MessageBuffer.evict
  split_ifs
  · split <;> rfl
  · rfl

@[simp]
theorem MessageBuffer.evict_broken (b : MessageBuffer) : b.evict.broken = b.broken := by
  unfold MessageBuffer.evict
  split_ifs
  · split <;> rfl
  · rfl

theorem MessageBuffer.evict_bufMsglink (b : MessageBuffer) :
    b.evict.bufMsglink = b.bufMsglink ∨ b.evict.bufMsglink = b.bufMsglink.tail := by
  unfold MessageBuffer.evict
  split_ifs
  · split <;> simp_all
  · exact .inl rfl

end Corpc.Message
