/-
# The buffer of sent messages, with its nodes

`MessageBuffer` in `corpc_message_buffer.cpp` as it is in memory: the messages are the nodes of a
`NormalLink`, and `bufMsgMap_` leads from a serial to its node.
-/

import Corpc.Message.BufferSteps
import Corpc.Message.NormalLink

namespace Corpc.Message

open Corpc.Basis Wire List Option Nat

variable {μ A : Type}

/-- `MessageBuffer`, with its nodes. -/
structure LinkedBuffer (A : Type) where
  bufMsglink : NormalLink A SendMessageInfo
  bufMsgMap : List (UInt64 × A)
  broken : Bool
  maxMsgNum : UInt32
  lastSerial : UInt32
  lastScrapSerial : UInt32

/-- `bufMsgMap_.erase(key)`. -/
def eraseKey (key : UInt64) (map : List (UInt64 × A)) : List (UInt64 × A) :=
  map.filter fun kv => kv.1 != key

/-- `bufMsgMap_.insert`, which leaves a key that is there as it is. -/
def insertKey (key : UInt64) (a : A) (map : List (UInt64 × A)) : List (UInt64 × A) :=
  if map.any fun kv => kv.1 == key then map else (key, a) :: map

section Operations

variable [DecidableEq A]

def LinkedBuffer.clear (b : LinkedBuffer A) : Option (LinkedBuffer A) := do
  let link ← b.bufMsglink.clear b.bufMsgMap.length
  return { b with bufMsglink := link, bufMsgMap := [] }

def LinkedBuffer.reset (b : LinkedBuffer A) (serial : UInt32) : Option (LinkedBuffer A) := do
  let b ← { b with broken := false }.clear
  return { b with lastSerial := serial, lastScrapSerial := serial }

/-- The first block of `insertMessage`. -/
def LinkedBuffer.evict (b : LinkedBuffer A) : Option (LinkedBuffer A) :=
  if 0 < b.maxMsgNum ∧ b.maxMsgNum.toNat ≤ b.bufMsgMap.length then do
    let it ← b.bufMsglink.head
    let node ← b.bufMsglink.heap it
    let link ← b.bufMsglink.erase it
    return { b with
      lastScrapSerial := node.data.serial
      bufMsgMap := eraseKey node.data.serial.toUInt64 b.bufMsgMap
      bufMsglink := link }
  else some b

/-- `MessageBuffer::insertMessage`; `a` is the address of the new node. -/
def LinkedBuffer.insertMessage (b : LinkedBuffer A) (a : A) (msg : SendMessageInfo) :
    Option (Bool × LinkedBuffer A) :=
  if b.broken then some (false, b)
  else do
    let b ← b.evict
    if msg.serial ≠ b.lastSerial + 1 then
      let b ← { b with broken := true }.clear
      return (false, b)
    else
      let link ← b.bufMsglink.push_back a msg
      return (true, { b with
        bufMsglink := link
        bufMsgMap := insertKey msg.serial.toUInt64 a b.bufMsgMap
        lastSerial := msg.serial })

def LinkedBuffer.jumpToSerial (b : LinkedBuffer A) (serial : UInt32) :
    Option (Bool × LinkedBuffer A) :=
  if b.broken then some (false, b)
  else if serial ≠ b.lastSerial + 1 then do
    let b ← { b with broken := true }.clear
    return (false, b)
  else some (true, { b with lastSerial := serial })

/-- The loop of `scrapMessages`, at the iterator `it1`. -/
def LinkedBuffer.scrapLoop (serial : UInt32) :
    ℕ → LinkedBuffer A → Option A → Option (LinkedBuffer A)
  | _, b, none => some b
  | 0, _, some _ => none
  | fuel + 1, b, some it => do
      let node ← b.bufMsglink.heap it
      if serial < node.data.serial then return b
      else
        let link ← b.bufMsglink.erase it
        let b := { b with
          bufMsgMap := eraseKey node.data.serial.toUInt64 b.bufMsgMap
          bufMsglink := link }
        LinkedBuffer.scrapLoop serial fuel b node.next

def LinkedBuffer.scrapMessages (b : LinkedBuffer A) (serial : UInt32) :
    Option (LinkedBuffer A) := do
  let b ← LinkedBuffer.scrapLoop serial b.bufMsgMap.length b b.bufMsglink.head
  return { b with
    lastScrapSerial := if b.lastScrapSerial < serial then serial else b.lastScrapSerial }

end Operations

def entry (c : A × SendMessageInfo) : UInt64 × A := (c.2.serial.toUInt64, c.1)

/-- The nodes `cells` of a buffer are the messages of another one that forgets them. -/
structure LinkedBuffer.RefinesAt (lb : LinkedBuffer A) (b : MessageBuffer)
    (cells : List (A × SendMessageInfo)) : Prop where
  link : lb.bufMsglink.Holds cells
  messages : cells.map Prod.snd = b.bufMsglink
  map : lb.bufMsgMap.Perm (cells.map entry)
  broken : lb.broken = b.broken
  maxMsgNum : lb.maxMsgNum = b.maxMsgNum
  lastSerial : lb.lastSerial = b.lastSerial
  lastScrapSerial : lb.lastScrapSerial = b.lastScrapSerial

def LinkedBuffer.Refines (lb : LinkedBuffer A) (b : MessageBuffer) : Prop :=
  ∃ cells, lb.RefinesAt b cells

/-- What the buffer should be: in step with its connection, with the same nodes in its list and in
its map. -/
structure LinkedBuffer.Consistent (b : LinkedBuffer A) (serial : UInt32)
    (cells : List (A × SendMessageInfo)) : Prop where
  broken : b.broken = false
  lastSerial : b.lastSerial = serial
  link : b.bufMsglink.Holds cells
  map : b.bufMsgMap.Perm (cells.map entry)
  increasing : cells.Pairwise fun c c' => c.2.serial < c'.2.serial
  bounded : ∀ c ∈ cells, c.2.serial ≤ b.lastSerial
  size : 0 < b.maxMsgNum → cells.length ≤ b.maxMsgNum.toNat

section Refines

variable {lb lb' : LinkedBuffer A} {b : MessageBuffer} {serial : UInt32}
  {cells : List (A × SendMessageInfo)}

theorem toUInt64_ne {x y : UInt32} (h : x ≠ y) : x.toUInt64 ≠ y.toUInt64 := by
  intro heq
  refine h (UInt32.toNat_inj.1 ?_)
  have hnat := congrArg UInt64.toNat heq
  simpa using hnat

theorem perm_eraseKey {map : List (UInt64 × A)} {c : A × SendMessageInfo}
    (h : map.Perm ((c :: cells).map entry)) (hne : ∀ x ∈ cells, x.2.serial ≠ c.2.serial) :
    (eraseKey c.2.serial.toUInt64 map).Perm (cells.map entry) := by
  have hfirst : ((c :: cells).map entry).filter (fun kv => kv.1 != c.2.serial.toUInt64) =
      cells.map entry := by
    rw [map_cons, filter_cons_of_neg (by simp [entry])]
    refine filter_eq_self.2 fun kv hkv => ?_
    obtain ⟨x, hx, rfl⟩ := mem_map.1 hkv
    exact bne_iff_ne.2 (toUInt64_ne (hne x hx))
  exact (h.filter _).trans (.of_eq hfirst)

theorem LinkedBuffer.RefinesAt.length_map (h : lb.RefinesAt b cells) :
    lb.bufMsgMap.length = cells.length := by
  rw [h.map.length_eq, List.length_map]

theorem LinkedBuffer.RefinesAt.serial_ne {c : A × SendMessageInfo}
    (h : lb.RefinesAt b (c :: cells)) (hin : b.InStep serial) :
    ∀ x ∈ cells, x.2.serial ≠ c.2.serial := by
  have hinc := hin.increasing
  rw [← h.messages, map_cons] at hinc
  intro x hx heq
  have hlt := (pairwise_cons.1 hinc).1 x.2 (mem_map_of_mem hx)
  rw [heq] at hlt
  exact UInt32.lt_irrefl _ hlt

theorem LinkedBuffer.RefinesAt.consistent (h : lb.RefinesAt b cells)
    (hin : b.InStep serial) : lb.Consistent serial cells := by
  have hmem : ∀ c ∈ cells, c.2 ∈ b.bufMsglink := fun c hc =>
    h.messages ▸ mem_map_of_mem hc
  refine ⟨h.broken.trans hin.broken, h.lastSerial.trans hin.lastSerial, h.link, h.map, ?_,
    fun c hc => ?_, fun hpos => ?_⟩
  · have hinc := hin.increasing
    rw [← h.messages, pairwise_map] at hinc
    exact hinc
  · rw [h.lastSerial, hin.lastSerial]
    exact hin.bounded c.2 (hmem c hc)
  · rw [h.maxMsgNum] at hpos ⊢
    rw [← List.length_map Prod.snd, h.messages]
    exact hin.size hpos

variable [DecidableEq A]

theorem LinkedBuffer.RefinesAt.erase_first {c : A × SendMessageInfo}
    (h : lb.RefinesAt b (c :: cells)) (hin : b.InStep serial) :
    ∃ node link, lb.bufMsglink.head = some c.1 ∧ lb.bufMsglink.heap c.1 = some node ∧
      node.data = c.2 ∧ node.next = (cells.map Prod.fst).head? ∧
      lb.bufMsglink.erase c.1 = some link ∧ link.Holds cells ∧
      (eraseKey c.2.serial.toUInt64 lb.bufMsgMap).Perm (cells.map entry) := by
  obtain ⟨hhead, node, hnode, hdata, hnext⟩ := h.link.head_cons
  obtain ⟨link, herase, hlink⟩ : ∃ link, lb.bufMsglink.erase c.1 = some link ∧
      link.Holds ([] ++ cells) := NormalLink.Holds.erase h.link
  exact ⟨node, link, hhead, hnode, hdata, hnext, herase, hlink,
    perm_eraseKey h.map (h.serial_ne hin)⟩

theorem LinkedBuffer.RefinesAt.clear (h : lb.RefinesAt b cells) :
    lb.clear = some { lb with bufMsglink := .new, bufMsgMap := [] } := by
  have hclear := h.link.clear (le_of_eq h.length_map.symm)
  simp [LinkedBuffer.clear, hclear]

theorem LinkedBuffer.Refines.reset (h : lb.Refines b) (serial : UInt32) :
    ∃ lb', lb.reset serial = some lb' ∧ lb'.Refines (b.reset serial) := by
  obtain ⟨cells, h⟩ := h
  have hfalse : LinkedBuffer.RefinesAt { lb with broken := false } { b with broken := false }
      cells :=
    ⟨h.link, h.messages, h.map, rfl, h.maxMsgNum, h.lastSerial, h.lastScrapSerial⟩
  refine ⟨⟨.new, [], false, lb.maxMsgNum, serial, serial⟩, ?_, [], NormalLink.holds_new, rfl, .nil,
    rfl, h.maxMsgNum, rfl, rfl⟩
  simp [LinkedBuffer.reset, hfalse.clear]

theorem LinkedBuffer.Refines.evict (h : lb.Refines b) (hin : b.InStep serial) :
    ∃ lb', lb.evict = some lb' ∧ lb'.Refines b.evict ∧
      ∀ a, lb.bufMsglink.heap a = none → lb'.bufMsglink.heap a = none := by
  obtain ⟨cells, h⟩ := h
  have hlen : lb.bufMsgMap.length = b.bufMsglink.length := by
    rw [h.length_map, ← h.messages, length_map]
  rcases hin.evict_cases with ⟨heq, hroom⟩ | ⟨m, rest, hlink, hpos, hfull, heq⟩
  · rw [heq]
    refine ⟨lb, ?_, ⟨cells, h⟩, fun _ => id⟩
    rw [LinkedBuffer.evict, h.maxMsgNum, hlen, if_neg]
    rintro ⟨hpos, hle⟩
    exact not_le.2 (hroom hpos) hle
  · cases cells with
    | nil =>
      have hnil := h.messages
      rw [hlink] at hnil
      cases hnil
    | cons c cells =>
      obtain ⟨rfl, rfl⟩ : c.2 = m ∧ cells.map Prod.snd = rest := by
        simpa [hlink] using h.messages
      obtain ⟨node, link, hhead, hnode, hdata, -, herase, hholds, hmap⟩ := h.erase_first hin
      refine ⟨{ lb with
        lastScrapSerial := c.2.serial
        bufMsgMap := eraseKey c.2.serial.toUInt64 lb.bufMsgMap
        bufMsglink := link }, ?_, ⟨cells, hholds, ?_, hmap, ?_, ?_, ?_, ?_⟩, fun a ha => ?_⟩
      · rw [LinkedBuffer.evict, h.maxMsgNum, hlen, if_pos ⟨hpos, le_of_eq hfull.symm⟩]
        simp [hhead, hnode, herase, hdata]
      · rw [heq]
        rfl
      · rw [heq]
        exact h.broken
      · rw [heq]
        exact h.maxMsgNum
      · rw [heq]
        exact h.lastSerial
      · rw [heq]
        rfl
      · refine hholds.alive a fun hmem => ?_
        obtain ⟨x, hx, rfl⟩ := mem_map.1 hmem
        have hdata := h.link.data x (mem_cons_of_mem _ hx)
        rw [ha] at hdata
        cases hdata

theorem LinkedBuffer.Refines.insertMessage (h : lb.Refines b) (hin : b.InStep serial)
    (hw : serial.toNat + 1 < 2 ^ 32) {m : SendMessageInfo} (hm : m.serial = serial + 1) (a : A) :
    (∀ lb' ok, lb.insertMessage a m = some (ok, lb') → lb'.Refines (b.insertMessage m).2) ∧
      (lb.bufMsglink.heap a = none → (lb.insertMessage a m).isSome = true) := by
  obtain ⟨lb₁, hevict, ⟨cells, h₁⟩, hfree⟩ := h.evict hin
  obtain ⟨cells₀, h₀⟩ := h
  obtain ⟨hin₁, -⟩ := hin.evict
  have hbroken : lb.broken = false := h₀.broken.trans hin.broken
  have hlast : m.serial = lb₁.lastSerial + 1 := by
    rw [h₁.lastSerial, hin₁.lastSerial, hm]
  have hunfold : lb.insertMessage a m = (lb₁.bufMsglink.push_back a m).map fun link =>
      (true, { lb₁ with
        bufMsglink := link
        bufMsgMap := insertKey m.serial.toUInt64 a lb₁.bufMsgMap
        lastSerial := m.serial }) := by
    simp only [LinkedBuffer.insertMessage, hbroken, Bool.false_eq_true, if_false, hevict,
      bind_eq_bind, bind_some, hlast, ne_eq, not_true_eq_false]
    cases lb₁.bufMsglink.push_back a m <;> rfl
  have hkey : insertKey m.serial.toUInt64 a lb₁.bufMsgMap =
      (m.serial.toUInt64, a) :: lb₁.bufMsgMap := by
    refine if_neg fun hany => ?_
    obtain ⟨kv, hkv, heq⟩ := any_eq_true.1 hany
    obtain ⟨c, hc, rfl⟩ := mem_map.1 (h₁.map.mem_iff.1 hkv)
    have hbelow : c.2.serial < m.serial := by
      rw [hm]
      refine lt_next hw (hin₁.bounded c.2 ?_)
      rw [← h₁.messages]
      exact mem_map_of_mem hc
    exact toUInt64_ne (UInt32.ne_of_lt hbelow) (eq_of_beq heq)
  constructor
  · intro lb' ok hs
    rw [hunfold] at hs
    obtain ⟨link, hpush, heq⟩ := map_eq_some_iff.1 hs
    obtain ⟨-, rfl⟩ := Prod.mk.inj heq
    have hnew : lb₁.bufMsglink.heap a = none := by
      by_contra hlive
      rw [NormalLink.push_back, if_pos (isSome_iff_ne_none.2 hlive)] at hpush
      cases hpush
    obtain ⟨link', hpush', hholds⟩ := h₁.link.push_back hnew m
    obtain rfl := some.inj (hpush.symm.trans hpush')
    rw [hin.insertMessage_eq hm]
    refine ⟨cells ++ [(a, m)], hholds, ?_, ?_, h₁.broken, h₁.maxMsgNum, rfl, h₁.lastScrapSerial⟩
    · rw [map_append, h₁.messages]
      rfl
    · dsimp only
      rw [hkey, map_append]
      exact (h₁.map.cons _).trans (perm_append_singleton _ _).symm
  · intro ha
    obtain ⟨link, hpush, -⟩ := h₁.link.push_back (hfree a ha) m
    rw [hunfold, hpush]
    rfl

theorem LinkedBuffer.Refines.jumpToSerial (h : lb.Refines b) (hin : b.InStep serial) :
    ∃ lb', lb.jumpToSerial (serial + 1) = some (true, lb') ∧
      lb'.Refines (b.jumpToSerial (serial + 1)).2 := by
  obtain ⟨cells, h⟩ := h
  refine ⟨{ lb with lastSerial := serial + 1 }, ?_, ?_⟩
  · rw [LinkedBuffer.jumpToSerial, h.broken, hin.broken, h.lastSerial, hin.lastSerial]
    simp
  · rw [hin.jumpToSerial_eq]
    exact ⟨cells, h.link, h.messages, h.map, h.broken, h.maxMsgNum, rfl, h.lastScrapSerial⟩

theorem LinkedBuffer.RefinesAt.scrapLoop (h : lb.RefinesAt b cells) (hin : b.InStep serial)
    (acked : UInt32) {fuel : ℕ} (hfuel : cells.length ≤ fuel) :
    ∃ lb', LinkedBuffer.scrapLoop acked fuel lb (cells.map Prod.fst).head? = some lb' ∧
      lb'.Refines { b with
        bufMsglink := (Message.scrapLoop acked b.bufMsglink b.bufMsgMap).1
        bufMsgMap := (Message.scrapLoop acked b.bufMsglink b.bufMsgMap).2 } := by
  induction cells generalizing lb b fuel with
  | nil =>
    have hnil : b.bufMsglink = [] := h.messages.symm
    refine ⟨lb, by cases fuel <;> rfl, [], h.link, ?_, h.map, h.broken, h.maxMsgNum,
      h.lastSerial, h.lastScrapSerial⟩
    rw [hnil]
    rfl
  | cons c cells ih =>
    obtain ⟨node, link, -, hnode, hdata, hnext, herase, hholds, hmap⟩ := h.erase_first hin
    have hlink : b.bufMsglink = c.2 :: cells.map Prod.snd := h.messages.symm
    cases fuel with
    | zero => simp at hfuel
    | succ fuel =>
      by_cases habove : acked < c.2.serial
      · refine ⟨lb, ?_, c :: cells, h.link, ?_, h.map, h.broken, h.maxMsgNum, h.lastSerial,
          h.lastScrapSerial⟩
        · simp [LinkedBuffer.scrapLoop, hnode, hdata, habove]
        · simp [hlink, Message.scrapLoop, habove]
      · -- one round, and the rest of the list
        have h₁ : LinkedBuffer.RefinesAt
            { lb with
              bufMsgMap := eraseKey c.2.serial.toUInt64 lb.bufMsgMap
              bufMsglink := link }
            { b with
              bufMsglink := cells.map Prod.snd
              bufMsgMap := b.bufMsgMap.erase c.2.serial } cells :=
          ⟨hholds, rfl, hmap, h.broken, h.maxMsgNum, h.lastSerial, h.lastScrapSerial⟩
        have hin₁ : MessageBuffer.InStep
            { b with
              bufMsglink := cells.map Prod.snd
              bufMsgMap := b.bufMsgMap.erase c.2.serial } serial := by
          obtain ⟨hbr, hlast, hkeys, hinc, hle, hsize⟩ := hin.dropFirst hlink
          exact ⟨hbr, hlast, hkeys, hinc, hle, hsize⟩
        obtain ⟨lb', hloop, hrefines⟩ := ih h₁ hin₁ (le_of_succ_le_succ hfuel)
        refine ⟨lb', ?_, ?_⟩
        · simp only [LinkedBuffer.scrapLoop, map_cons, List.head?_cons, hnode,
            bind_eq_bind, bind_some, hdata, habove, if_false, herase, hnext]
          exact hloop
        · simp only [hlink, Message.scrapLoop, habove, if_false]
          exact hrefines

theorem LinkedBuffer.Refines.scrapMessages (h : lb.Refines b) (hin : b.InStep serial)
    (acked : UInt32) :
    ∃ lb', lb.scrapMessages acked = some lb' ∧ lb'.Refines (b.scrapMessages acked) := by
  obtain ⟨cells, h⟩ := h
  have hhead : lb.bufMsglink.head = (cells.map Prod.fst).head? := by
    cases cells with
    | nil => exact h.link.head_nil
    | cons c cells => exact h.link.head_cons.1
  obtain ⟨lb', hloop, cells', h'⟩ := h.scrapLoop hin acked (le_of_eq h.length_map.symm)
  refine ⟨{ lb' with
    lastScrapSerial := if lb'.lastScrapSerial < acked then acked else lb'.lastScrapSerial }, ?_,
    cells', h'.link, h'.messages, h'.map, h'.broken, h'.maxMsgNum, h'.lastSerial, ?_⟩
  · rw [LinkedBuffer.scrapMessages, hhead, hloop]
    rfl
  · dsimp only
    rw [h'.lastScrapSerial]
    rfl

end Refines

/-- `MessageTerminal::Connection`, as far as it has to do with its buffer. -/
structure LinkedConnection (μ A : Type) where
  terminal : MessageTerminal μ
  lastSendSerial : UInt32
  msgBuffer : LinkedBuffer A

/-- A call that changes the buffer; `send` with the address that `new` returns if it is called. -/
inductive LinkedOp (A : Type)
  | send (call : SendCall) (a : A)
  | scrapMessages (serial : UInt32)
  | resetMsgBuffer

def LinkedOp.op : LinkedOp A → BufferOp
  | .send call _ => .send call
  | .scrapMessages serial => .scrapMessages serial
  | .resetMsgBuffer => .resetMsgBuffer

section Connections

variable [DecidableEq A]

/-- `msgBuffer_->insertMessage` or `msgBuffer_->jumpToSerial`. -/
def LinkedBuffer.recordSend (b : LinkedBuffer A) (needBuffer : Bool) (a : A)
    (info : SendMessageInfo) : Option (LinkedBuffer A) :=
  if needBuffer then (b.insertMessage a info).map Prod.snd
  else (b.jumpToSerial info.serial).map Prod.snd

/-- `send` past its first block. -/
def LinkedConnection.number (conn : LinkedConnection μ A) (call : SendCall) (a : A) :
    Option (LinkedConnection μ A) :=
  if 0 < call.type ∧ conn.terminal.enableSerial then
    let info := call.info (conn.lastSendSerial + 1)
    (conn.msgBuffer.recordSend call.needBuffer a info).map fun msgBuffer =>
      { conn with lastSendSerial := info.serial, msgBuffer }
  else some conn

def LinkedConnection.send (conn : LinkedConnection μ A) (call : SendCall) (a : A) :
    Option (LinkedConnection μ A) :=
  if call.isOpen₁ then conn.number call a
  else if call.type < 0 then some conn
  -- assert(terminal_->enableSerial_)
  else if !conn.terminal.enableSerial then none
  else if !call.needBuffer then some conn
  else conn.number call a

def LinkedConnection.step (conn : LinkedConnection μ A) :
    LinkedOp A → Option (LinkedConnection μ A)
  | .send call a => conn.send call a
  | .scrapMessages serial =>
    (conn.msgBuffer.scrapMessages serial).map fun msgBuffer => { conn with msgBuffer }
  | .resetMsgBuffer =>
    (conn.msgBuffer.reset conn.lastSendSerial).map fun msgBuffer => { conn with msgBuffer }

/-- The connection does what `c` does, whose buffer is `b`. -/
structure LinkedConnection.Simulates (conn : LinkedConnection μ A) (c : Connection μ)
    (b : MessageBuffer) : Prop where
  terminal : c.terminal = conn.terminal
  lastSendSerial : c.lastSendSerial = conn.lastSendSerial
  msgBuffer : c.msgBuffer = some b
  refines : conn.msgBuffer.Refines b

/-- The call can be made: the connection numbers its messages or is open, and `new` returns an
address that is not in use. -/
def LinkedOp.Possible (conn : LinkedConnection μ A) : LinkedOp A → Prop
  | .send call a =>
    (conn.terminal.enableSerial = true ∨ call.isOpen₁ = true) ∧
      conn.msgBuffer.bufMsglink.heap a = none
  | _ => True

section Simulates

variable {conn conn' : LinkedConnection μ A} {c : Connection μ} {b : MessageBuffer}

theorem LinkedBuffer.Refines.recordSend {lb : LinkedBuffer A} {serial : UInt32}
    (h : lb.Refines b) (hin : b.InStep serial) (hw : serial.toNat + 1 < 2 ^ 32) (call : SendCall)
    (a : A) :
    (∀ lb', lb.recordSend call.needBuffer a (call.info (serial + 1)) = some lb' →
      lb'.Refines (Message.recordSend call.needBuffer (call.info (serial + 1)) b)) ∧
      (lb.bufMsglink.heap a = none →
        (lb.recordSend call.needBuffer a (call.info (serial + 1))).isSome = true) := by
  unfold LinkedBuffer.recordSend Message.recordSend
  split_ifs
  · obtain ⟨hkeep, hsome⟩ := h.insertMessage hin hw (m := call.info (serial + 1)) rfl a
    refine ⟨fun lb' hlb' => ?_, fun ha => ?_⟩
    · obtain ⟨⟨ok, lb'⟩, hs, rfl⟩ := map_eq_some_iff.1 hlb'
      exact hkeep lb' ok hs
    · rw [isSome_map]
      exact hsome ha
  · obtain ⟨lb₁, hjump, hrefines⟩ := h.jumpToSerial hin
    rw [show (call.info (serial + 1)).serial = serial + 1 from rfl, hjump]
    refine ⟨fun lb' hlb' => ?_, fun _ => rfl⟩
    cases hlb'
    exact hrefines

theorem LinkedConnection.send_of_takes {call : SendCall} (ht : 0 < call.type)
    (htakes : call.takesSerial conn.terminal.enableSerial = true) (a : A) :
    conn.send call a =
      (conn.msgBuffer.recordSend call.needBuffer a (call.info (conn.lastSendSerial + 1))).map
        fun msgBuffer => { conn with lastSendSerial := conn.lastSendSerial + 1, msgBuffer } := by
  obtain ⟨hon, hcall⟩ := Bool.and_eq_true_iff.1 htakes
  have hneg : ¬call.type < 0 := Int32.not_lt.2 (Int32.le_of_lt ht)
  have hnumber : conn.send call a = conn.number call a := by
    unfold LinkedConnection.send
    cases hopen : call.isOpen₁ with
    | true => rfl
    | false =>
      rw [hopen, Bool.false_or] at hcall
      simp [hneg, hon, hcall]
  rw [hnumber, LinkedConnection.number, if_pos ⟨ht, hon⟩]
  rfl

theorem LinkedConnection.send_of_not_takes {call : SendCall} (ht : 0 < call.type)
    (htakes : call.takesSerial conn.terminal.enableSerial = false) (a : A) :
    conn.send call a = if conn.terminal.enableSerial || call.isOpen₁ then some conn else none := by
  have hneg : ¬call.type < 0 := Int32.not_lt.2 (Int32.le_of_lt ht)
  unfold LinkedConnection.send LinkedConnection.number
  cases hon : conn.terminal.enableSerial with
  | true =>
    obtain ⟨hopen, hkeep⟩ : call.isOpen₁ = false ∧ call.needBuffer = false := by
      simpa [SendCall.takesSerial, hon] using htakes
    simp [hopen, hkeep, hneg]
  | false => cases hopen : call.isOpen₁ <;> simp [hneg]

theorem LinkedConnection.Simulates.send (h : conn.Simulates c b)
    (hin : b.InStep c.lastSendSerial) {call : SendCall} (ht : 0 < call.type)
    (hw : c.lastSendSerial.toNat + (BufferOp.send call).serials c.terminal.enableSerial < 2 ^ 32)
    (a : A) :
    (∀ conn', conn.send call a = some conn' →
      ∃ c' b', c.bufferStep (.send call) = some c' ∧ conn'.Simulates c' b') ∧
      (conn.terminal.enableSerial = true ∨ call.isOpen₁ = true →
        conn.msgBuffer.bufMsglink.heap a = none → (conn.send call a).isSome = true) := by
  obtain ⟨hterm, hlast, hb, hrefines⟩ := h
  have hmove : c.terminal.enableSerial = true ∨ call.isOpen₁ = true →
      ∃ c' b', c.bufferStep (.send call) = some c' ∧ c'.terminal = c.terminal ∧
        c'.msgBuffer = some b' ∧
        BufferMove c.terminal.enableSerial b c.lastSendSerial (.send call) b'
          c'.lastSendSerial := by
    intro hpossible
    have hsome : (c.bufferStep (.send call)).isSome = true :=
      c.bufferStep_isSome fun call' heq => BufferOp.send.inj heq ▸ hpossible
    obtain ⟨c', hc'⟩ := isSome_iff_exists.1 hsome
    obtain ⟨hterm', b', hb', hm⟩ :=
      c.bufferStep_move hb (fun call' heq => BufferOp.send.inj heq ▸ ht) hc'
    exact ⟨c', b', hc', hterm', hb', hm⟩
  rw [← hterm]
  cases htakes : call.takesSerial c.terminal.enableSerial with
  | true =>
    have hon := (Bool.and_eq_true_iff.1 htakes).1
    have hone : (BufferOp.send call).serials c.terminal.enableSerial = 1 := if_pos htakes
    rw [hone] at hw
    obtain ⟨hrecord, hsome⟩ := hrefines.recordSend hin hw call a
    rw [hterm] at htakes
    have hsend := conn.send_of_takes ht htakes a
    rw [← hterm] at htakes
    rw [← hlast] at hsend
    rw [hsend]
    refine ⟨fun conn' hs => ?_, fun _ ha => by simpa using hsome ha⟩
    obtain ⟨lb', hlb', rfl⟩ := map_eq_some_iff.1 hs
    obtain ⟨c', b', hc', hterm', hb', hm⟩ := hmove (.inl hon)
    obtain ⟨rfl, hserial⟩ := hm.send.1 htakes
    exact ⟨c', _, hc', hterm'.trans hterm, hserial, hb', hrecord lb' hlb'⟩
  | false =>
    rw [hterm] at htakes
    have hsend := conn.send_of_not_takes ht htakes a
    rw [← hterm] at htakes hsend
    rw [hsend]
    refine ⟨fun conn' hs => ?_, fun hp _ => by simp [hp]⟩
    obtain ⟨hp, rfl⟩ := ite_some_none_eq_some.1 hs
    obtain ⟨c', b', hc', hterm', hb', hm⟩ := hmove (by simpa using hp)
    obtain ⟨rfl, hserial⟩ := hm.send.2 htakes
    exact ⟨c', _, hc', hterm'.trans hterm, hserial.trans hlast, hb', hrefines⟩

theorem LinkedConnection.Simulates.step (h : conn.Simulates c b) (hin : b.InStep c.lastSendSerial)
    {op : LinkedOp A} (hpos : ∀ call, op.op = .send call → 0 < call.type)
    (hw : c.lastSendSerial.toNat + op.op.serials c.terminal.enableSerial < 2 ^ 32) :
    (∀ conn', conn.step op = some conn' →
      ∃ c' b', c.bufferStep op.op = some c' ∧ conn'.Simulates c' b') ∧
      (op.Possible conn → (conn.step op).isSome = true) := by
  cases op with
  | scrapMessages acked =>
    obtain ⟨hterm, hlast, hb, hrefines⟩ := h
    obtain ⟨lb', hscrap, hrefines'⟩ := hrefines.scrapMessages hin acked
    refine ⟨fun conn' hs => ?_, fun _ => by simp [LinkedConnection.step, hscrap]⟩
    rw [LinkedConnection.step, hscrap] at hs
    cases hs
    exact ⟨_, _, rfl, hterm, hlast, by simp [Connection.scrapMessages, hb], hrefines'⟩
  | resetMsgBuffer =>
    obtain ⟨hterm, hlast, hb, hrefines⟩ := h
    obtain ⟨lb', hreset, hrefines'⟩ := hrefines.reset conn.lastSendSerial
    refine ⟨fun conn' hs => ?_, fun _ => by simp [LinkedConnection.step, hreset]⟩
    rw [LinkedConnection.step, hreset] at hs
    cases hs
    refine ⟨_, _, rfl, hterm, hlast, ?_, hrefines'⟩
    simp [Connection.resetMsgBuffer, hb, hlast]
  | send call a =>
    obtain ⟨hkeep, hsome⟩ := h.send hin (hpos call rfl) hw a
    exact ⟨hkeep, fun hp => hsome hp.1 hp.2⟩

end Simulates

/-- A buffer without messages in step with a serial, as a new one is with 0, and one that was
reset. -/
structure LinkedBuffer.Aligned (b : LinkedBuffer A) (serial : UInt32) : Prop where
  bufMsglink : b.bufMsglink = .new
  bufMsgMap : b.bufMsgMap = []
  broken : b.broken = false
  lastSerial : b.lastSerial = serial

def LinkedConnection.forget (conn : LinkedConnection μ A) : Connection μ :=
  ⟨conn.terminal, none, some ⟨[], [], false, conn.msgBuffer.maxMsgNum, conn.lastSendSerial,
    conn.msgBuffer.lastScrapSerial⟩, 0, conn.lastSendSerial, false, 0⟩

/-- **The buffer stays consistent and in step with its connection**, and no assertion fails but the
one that says that a connection with a buffer numbers its messages. -/
theorem buffer_stays_in_step (conn : LinkedConnection μ A)
    (hstart : conn.msgBuffer.Aligned conn.lastSendSerial) (ops : List (LinkedOp A))
    (hpos : Positive (ops.map LinkedOp.op)) (hw : conn.lastSendSerial.toNat +
      serialsUsed conn.terminal.enableSerial (ops.map LinkedOp.op) < 2 ^ 32)
    (conn' : LinkedConnection μ A) (hrun : run LinkedConnection.step conn ops = some conn') :
    (∃ cells, conn'.msgBuffer.Consistent conn'.lastSendSerial cells) ∧
      ∀ op : LinkedOp A, (∀ call, op.op = .send call → 0 < call.type) →
        conn'.lastSendSerial.toNat + op.op.serials conn'.terminal.enableSerial < 2 ^ 32 →
        op.Possible conn' → (conn'.step op).isSome = true := by
  have hforget : conn.forget.Holds conn.terminal.enableSerial conn.lastSendSerial.toNat :=
    ⟨rfl, rfl, _, rfl, rfl, rfl, .refl _, .nil, nofun, fun _ => zero_le _⟩
  -- the history without the nodes is in step
  have hholds : ∀ pre c, pre <+: ops →
      run Connection.bufferStep conn.forget (pre.map LinkedOp.op) = some c →
      c.Holds conn.terminal.enableSerial (conn.lastSendSerial.toNat +
        serialsUsed conn.terminal.enableSerial (pre.map LinkedOp.op)) := by
    intro pre c hpre hc
    have hmap : pre.map LinkedOp.op <+: ops.map LinkedOp.op := hpre.map LinkedOp.op
    refine hforget.run (fun call hcall => hpos call (hmap.subset hcall)) ?_ hc
    have hle := serialsUsed_le_of_prefix conn.terminal.enableSerial hmap
    omega
  obtain ⟨c, b, hc, hsim⟩ : ∃ c b,
      run Connection.bufferStep conn.forget (ops.map LinkedOp.op) = some c ∧
        conn'.Simulates c b := by
    refine run_history (I := fun pre t => ∃ c b,
      run Connection.bufferStep conn.forget (pre.map LinkedOp.op) = some c ∧
        LinkedConnection.Simulates t c b) (fun pre op t t' hpre _ ht hs => ?_) ?_ hrun
    · obtain ⟨c, b, hc, hsim⟩ := ht
      obtain ⟨hon, hused, b', hb', hin⟩ := hholds pre c ((prefix_append _ _).trans hpre) hc
      obtain rfl := some.inj (hsim.msgBuffer.symm.trans hb')
      have hmem : op ∈ ops := hpre.subset (mem_append_right _ (mem_singleton_self op))
      have hle := serialsUsed_le_of_prefix conn.terminal.enableSerial (hpre.map LinkedOp.op)
      have hone : serialsUsed conn.terminal.enableSerial [op.op] =
        op.op.serials conn.terminal.enableSerial := by simp [serialsUsed]
      rw [map_append, serialsUsed_append, map_singleton, hone] at hle
      obtain ⟨c', b', hc', hsim'⟩ := (hsim.step hin
        (fun call hcall => hpos call (hcall ▸ mem_map_of_mem hmem))
        (by rw [hon]; omega)).1 t' hs
      refine ⟨c', b', ?_, hsim'⟩
      rw [map_append, map_singleton, run_append, hc, bind_some, run_cons, hc']
      rfl
    · refine ⟨conn.forget, _, rfl, rfl, rfl, rfl, [], ?_, rfl, ?_, hstart.broken, rfl,
        hstart.lastSerial, rfl⟩
      · rw [hstart.bufMsglink]
        exact NormalLink.holds_new
      · rw [hstart.bufMsgMap]
        exact .nil
  obtain ⟨-, -, b', hb', hin⟩ := hholds ops c prefix_rfl hc
  obtain rfl := some.inj (hsim.msgBuffer.symm.trans hb')
  refine ⟨?_, fun op hpos' hw' hpossible => ?_⟩
  · obtain ⟨cells, href⟩ := hsim.refines
    exact ⟨cells, href.consistent (hsim.lastSendSerial ▸ hin)⟩
  · rw [← hsim.lastSendSerial, ← hsim.terminal] at hw'
    exact (hsim.step hin hpos' hw').2 hpossible

/-- The nodes are numbers here.  Three messages into a buffer for two, the third while the
connection is closed, an acknowledgement of the second, and a reset. -/
theorem buffer_stays_in_step_limit :
    let conn : LinkedConnection Unit ℕ :=
      ⟨⟨false, false, true, [], true⟩, 0, ⟨.new, [], false, 2, 0, 0⟩⟩
    let call : SendCall := ⟨true, true, 1, false, true, 0, .raw none⟩
    let ops : List (LinkedOp ℕ) := [.send call 10, .send call 20,
      .send { call with isOpen₁ := false, isOpen₂ := false } 10, .scrapMessages 2, .resetMsgBuffer]
    ∃ conn', run LinkedConnection.step conn ops = some conn' ∧
      ∃ cells, conn'.msgBuffer.Consistent conn'.lastSendSerial cells := by
  intro conn call ops
  have hrun : (run LinkedConnection.step conn ops).isSome = true := by decide +kernel
  obtain ⟨conn', hconn'⟩ := isSome_iff_exists.1 hrun
  refine ⟨conn', hconn', (buffer_stays_in_step conn ⟨rfl, rfl, rfl, rfl⟩ ops ?_ (by decide) conn'
    hconn').1⟩
  intro c hc
  have hcases : c = call ∨ c = { call with isOpen₁ := false, isOpen₂ := false } := by
    simpa [ops, LinkedOp.op] using hc
  rcases hcases with rfl | rfl <;> decide

end Connections

end Corpc.Message
