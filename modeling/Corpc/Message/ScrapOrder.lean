/-
# Acknowledgements across the wrap-around of serials

An acknowledgement is to remove its message and all messages sent before it.  The loop of
`scrapMessages` goes through the buffer in the order of sending and stops at the first serial above
the acknowledged one, compared as plain numbers.
-/

import Corpc.Message.Resend

namespace Corpc.Message

open Corpc.Basis Wire List

variable {μ : Type}

theorem dropWhile_append_eq_right {α : Type} (p : α → Bool) (old new : List α) :
    (old ++ new).dropWhile p = new ↔ (∀ x ∈ old, p x = true) ∧ ∀ x ∈ new.head?, p x = false := by
  induction old with
  | nil =>
    cases new with
    | nil => simp
    | cons x rest =>
      by_cases hx : p x = true
      · rw [nil_append, dropWhile_cons_of_pos hx]
        refine iff_of_false (fun heq => ?_) (by simp [hx])
        -- the list would be shorter than itself
        have hle := (dropWhile_suffix p (l := rest)).length_le
        rw [heq, length_cons] at hle
        omega
      · rw [nil_append, dropWhile_cons_of_neg hx]
        simp [hx]
  | cons y old ih =>
    by_cases hy : p y = true
    · rw [cons_append, dropWhile_cons_of_pos hy, ih]
      simp [hy]
    · rw [cons_append, dropWhile_cons_of_neg hy]
      refine iff_of_false (fun heq => ?_) (by simp [hy])
      have hlen := congrArg List.length heq
      rw [length_cons, length_append] at hlen
      omega

theorem suffix_append_split {α : Type} {link l₁ l₂ : List α} (h : link <:+ l₁ ++ l₂) :
    ∃ old new, link = old ++ new ∧ old <:+ l₁ ∧ new <:+ l₂ ∧ (old ≠ [] → new = l₂) := by
  obtain ⟨gone, hgone⟩ := h
  rcases append_eq_append_iff.1 hgone with ⟨old, rfl, rfl⟩ | ⟨lost, -, rfl⟩
  · exact ⟨old, l₂, rfl, suffix_append gone old, suffix_rfl, fun _ => rfl⟩
  · exact ⟨[], link, rfl, nil_suffix, suffix_append lost link, fun hne => absurd rfl hne⟩

/-- **When scrapping follows the order of sending**: all serials sent no later than `x` are at most
that of `x`, and the first one sent after it is above. -/
theorem scrap_order_iff (conn : Connection μ) (b : MessageBuffer) (h : conn.Keeps [] b)
    (ops : List SenderOp) (hpos : PositiveTypes ops) (early late : List (Bool × SendMessageInfo))
    (x : Bool × SendMessageInfo) (hsent : numbered conn.lastSendSerial ops = early ++ [x] ++ late) :
    ∃ conn' out b' old new, conn.performAll ops = some (conn', out) ∧
      conn'.msgBuffer = some b' ∧ b'.bufMsglink = old ++ new ∧
      old <:+ kept (early ++ [x]) ∧ new <:+ kept late ∧ (old ≠ [] → new = kept late) ∧
      ((b'.scrapMessages x.2.serial).bufMsglink = new ↔
        (∀ m ∈ old, m.serial ≤ x.2.serial) ∧ ∀ m ∈ new.head?, x.2.serial < m.serial) ∧
      (conn.lastSendSerial.toNat + (early ++ [x] ++ late).length < 2 ^ 32 →
        (b'.scrapMessages x.2.serial).bufMsglink = new) := by
  obtain ⟨conn', out, b', hall, hk, -⟩ := h.performAll hpos
  have hsuf : b'.bufMsglink <:+ kept (early ++ [x]) ++ kept late := by
    have hsuf := hk.suffix
    rwa [nil_append, hsent, kept_append] at hsuf
  obtain ⟨old, new, hlink, hold, hnew, hfull⟩ := suffix_append_split hsuf
  have hiff : (b'.scrapMessages x.2.serial).bufMsglink = new ↔
      (∀ m ∈ old, m.serial ≤ x.2.serial) ∧ ∀ m ∈ new.head?, x.2.serial < m.serial := by
    rw [b'.scrapMessages_bufMsglink, hlink, dropWhile_append_eq_right]
    simp
  refine ⟨conn', out, b', old, new, hall, hk.msgBuffer, hlink, hold, hnew, hfull, hiff,
    fun hw => hiff.2 ⟨fun m hm => ?_, fun m hm => ?_⟩⟩
  · have hcons := consecutive_numbered conn.lastSendSerial ops
    rw [hsent] at hcons
    have hlt := hcons.pairwise hw
    have hmem := mem_kept (hold.subset hm)
    rcases mem_append.1 hmem with hearly | hlast
    · have hpre := (pairwise_append.1 (pairwise_append.1 hlt).1).2.2
      exact UInt32.le_of_lt (hpre _ hearly x (List.mem_singleton_self x))
    · rw [← List.mem_singleton.1 hlast]
      exact UInt32.le_refl _
  · have hcons := consecutive_numbered conn.lastSendSerial ops
    rw [hsent] at hcons
    have hmem := mem_kept (hnew.subset (mem_of_mem_head? hm))
    exact (pairwise_append.1 (hcons.pairwise hw)).2.2 x (by simp) _ hmem

theorem scrap_order_two :
    ∃ conn' out b' old new, freshSender.performAll
        [.send (callOfType1 true), .send (callOfType1 true)] = some (conn', out) ∧
      conn'.msgBuffer = some b' ∧ b'.bufMsglink = old ++ new ∧
      (b'.scrapMessages 1).bufMsglink = new := by
  have hpos : PositiveTypes [.send (callOfType1 true), .send (callOfType1 true)] := by
    intro call hcall
    obtain rfl : call = callOfType1 true := by simpa using hcall
    decide
  obtain ⟨conn', out, b', old, new, hall, hb, hlink, -, -, -, -, hscrap⟩ := scrap_order_iff
    freshSender ((MessageBuffer.new 0).reset 0) ⟨rfl, rfl, rfl, rfl, suffix_rfl⟩ _ hpos []
    [(true, (callOfType1 true).info 2)] (true, (callOfType1 true).info 1) (by decide)
  exact ⟨conn', out, b', old, new, hall, hb, hlink, hscrap (by decide)⟩

theorem Connection.performAll_append (conn : Connection μ) (ops ops' : List SenderOp) :
    (conn.performAll (ops ++ ops')).map Prod.fst =
      ((conn.performAll ops).map Prod.fst).bind fun c => (c.performAll ops').map Prod.fst := by
  induction ops generalizing conn with
  | nil => rfl
  | cons op ops ih =>
    simp only [cons_append, Connection.performAll]
    cases conn.perform op with
    | none => rfl
    | some r => simpa [Option.map_map, Function.comp_def] using ih r.1

/-- A new connection after `n` messages that are not kept. -/
def senderAt (n : ℕ) : Connection Unit :=
  { freshSender with
    lastSendSerial := UInt32.ofNat n
    msgBuffer := some { (MessageBuffer.new 0).reset 0 with lastSerial := UInt32.ofNat n } }

theorem performAll_unkept (n : ℕ) :
    (freshSender.performAll (List.replicate n (.send (callOfType1 false)))).map Prod.fst =
      some (senderAt n) := by
  induction n with
  | zero => rfl
  | succ n ih =>
    rw [replicate_succ', Connection.performAll_append, ih, Option.bind_some]
    simp [Connection.performAll, Connection.perform, Connection.send, Connection.number,
      callOfType1, senderAt, recordSend, SendCall.info, MessageBuffer.jumpToSerial,
      MessageBuffer.reset, MessageBuffer.new, freshSender, buildConnection, openTerminal,
      UInt32.ofNat_add]

def Connection.scrapped (conn : Connection μ) (serial : UInt32) :
    Option (List UInt32 × List UInt32) :=
  conn.msgBuffer.map fun b =>
    (b.bufMsglink.map (·.serial), (b.scrapMessages serial).bufMsglink.map (·.serial))

/-- **Around the wrap-around**, with serials `2 ^ 32 - 1` and `0` in the buffer: acknowledging the
second removes neither of them, acknowledging the first both. -/
theorem scrap_across_wrap :
    let ops := List.replicate (2 ^ 32 - 2) (SenderOp.send (callOfType1 false)) ++
      [.send (callOfType1 true), .send (callOfType1 true)]
    ((freshSender.performAll ops).map Prod.fst).bind (·.scrapped 0) =
        some ([0xFFFFFFFF, 0], [0xFFFFFFFF, 0]) ∧
      ((freshSender.performAll ops).map Prod.fst).bind (·.scrapped 0xFFFFFFFF) =
        some ([0xFFFFFFFF, 0], []) := by
  dsimp only
  rw [Connection.performAll_append, performAll_unkept, Option.bind_some]
  decide +kernel

end Corpc.Message
