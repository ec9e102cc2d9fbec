/-
# What the received serial counts

`recvSerial_` is the receiver's account of what it has taken: `encode` reports it to the peer, the
peer scraps its buffer up to it, and a reconnecting client starts from it.
-/

import Corpc.Basis.Run
import Corpc.Message.Terminal

namespace Corpc.Message

open Corpc.Basis Wire Option Bool

variable {μ : Type}

/-- The table of registered messages refuses the decrypted body: the type is
unknown and nobody takes unknown types, or its prototype does not parse it. -/
def refusesRegistered (conn : Connection μ) (head body : List UInt8) : Bool :=
  match conn.terminal.registerMessageMap.lookup (headType head) with
  | none => !conn.terminal.otherMessageHandle
  | some info =>
    !info.banned && match info.proto with
      | some parse => (parse body).isNone
      | none => false

/-- A data frame with the right serial is refused for its contents: a wrong
checksum, an encrypted body without a crypter, or the table. -/
def refusesBody (conn : Connection μ) (head body : List UInt8) : Bool :=
  (conn.terminal.enableRecvCRC && headCrc head != checkSum body 0xFFFF) ||
    if headFlag head &&& messageFlagCrypt ≠ 0 then
      match conn.crypter with
      | none => true
      | some crypter => refusesRegistered conn head (crypter.decrypt body)
    else refusesRegistered conn head body

/-- The refusals behind the counter: a data frame that is out of sequence or
refused for its contents. -/
def countedRefusal (conn : Connection μ) (head body : List UInt8) : Bool :=
  !decide (headType head < 0) &&
    (headSerial head != conn.recvSerial + 1 || refusesBody conn head body)

section

variable {conn conn' : Connection μ} {head body : List UInt8} {reqSerial : UInt32}
  {task : Option (MessageWorkerTask μ)}

theorem decodeRegistered_spec (h : decodeRegistered conn head body reqSerial = some (conn', task)) :
    (refusesRegistered conn head body = true ∧ conn' = conn.setDecodeError ∧ task = none) ∨
      (refusesRegistered conn head body = false ∧ conn' = conn ∧ task.isSome) := by
  unfold decodeRegistered at h
  unfold refusesRegistered
  cases hl : conn.terminal.registerMessageMap.lookup (headType head) with
  | none =>
    simp only [hl] at h
    split_ifs at h with ho <;> obtain ⟨rfl, rfl⟩ := Prod.mk.inj (some.inj h) <;>
      simp [ho]
  | some info =>
    simp only [hl] at h
    by_cases hb : info.banned
    · obtain ⟨rfl, rfl⟩ := Prod.mk.inj (some.inj (by simpa [hb] using h))
      simp [hb]
    · simp only [hb, false_eq_true, if_false] at h
      cases hp : info.proto with
      | none =>
        simp only [hp] at h
        split_ifs at h
        obtain ⟨rfl, rfl⟩ := Prod.mk.inj (some.inj h)
        simp [hb, hp]
      | some parse =>
        simp only [hp] at h
        cases hm : parse body <;> simp only [hm] at h <;>
          obtain ⟨rfl, rfl⟩ := Prod.mk.inj (some.inj h) <;> simp [hb, hp, hm]

theorem decodeBody_spec (h : decodeBody conn head body reqSerial = some (conn', task)) :
    (refusesBody conn head body = true ∧ conn' = conn.setDecodeError ∧ task = none) ∨
      (refusesBody conn head body = false ∧ conn' = conn ∧ task.isSome) := by
  unfold decodeBody at h
  unfold refusesBody
  by_cases hcrc : conn.terminal.enableRecvCRC ∧ headCrc head ≠ checkSum body 0xFFFF
  · rw [if_pos hcrc] at h
    obtain ⟨rfl, rfl⟩ := Prod.mk.inj (some.inj h)
    simp [hcrc]
  · have hc : (conn.terminal.enableRecvCRC && headCrc head != checkSum body 0xFFFF) = false := by
      simpa using hcrc
    rw [if_neg hcrc] at h
    rw [hc, Bool.false_or]
    by_cases hcrypt : headFlag head &&& messageFlagCrypt ≠ 0
    · rw [if_pos hcrypt] at h ⊢
      cases hk : conn.crypter with
      | none =>
        rw [hk] at h
        obtain ⟨rfl, rfl⟩ := Prod.mk.inj (some.inj h)
        simp
      | some crypter =>
        rw [hk] at h
        exact decodeRegistered_spec h
    · rw [if_neg hcrypt] at h ⊢
      exact decodeRegistered_spec h

end

section

variable {mtime : ℕ} {conn conn' : Connection μ} {head body : List UInt8}
  {task : Option (MessageWorkerTask μ)}

/-- **What one call of `decode` does with a data frame:** it moves the counter by
one, whether or not the frame is then refused. -/
theorem decode_data (hs : conn.terminal.enableSerial = true)
    (ht : ¬headType head < 0) (h : decode mtime conn head body = some (conn', task)) :
    (countedRefusal conn head body = true ∧ task = none ∧
        conn' = { conn with recvSerial := conn.recvSerial + 1, decodeError := true }) ∨
      (countedRefusal conn head body = false ∧ task.isSome ∧ headSerial head = conn.recvSerial + 1 ∧
        conn' = { conn with recvSerial := conn.recvSerial + 1 }) := by
  unfold decode at h
  rw [if_neg ht, if_pos hs] at h
  unfold countedRefusal
  by_cases hser : conn.recvSerial + 1 = headSerial head
  · rw [if_neg (not_not.2 hser)] at h
    have hbody : refusesBody { conn with recvSerial := conn.recvSerial + 1 } head body =
        refusesBody conn head body := rfl
    rcases decodeBody_spec h with ⟨hr, rfl, rfl⟩ | ⟨hr, rfl, hsome⟩
    · rw [hbody] at hr
      exact .inl ⟨by simp [ht, hr], rfl, rfl⟩
    · rw [hbody] at hr
      exact .inr ⟨by simp [ht, hr, hser], hsome, hser.symm, rfl⟩
  · rw [if_pos hser] at h
    obtain ⟨rfl, rfl⟩ := Prod.mk.inj (some.inj h)
    exact .inl ⟨by simp [ht, Ne.symm hser], rfl, rfl⟩

theorem decode_system (ht : headType head < 0)
    (h : decode mtime conn head body = some (conn', task)) :
    (headType head = msgTypeJumpSerial ∧ conn.recvSerial < headSerial head ∧
        conn' = { conn with recvSerial := headSerial head }) ∨
      (headType head = msgTypeJumpSerial ∧ headSerial head ≤ conn.recvSerial ∧
        conn' = conn.setDecodeError) ∨
      (headType head ≠ msgTypeJumpSerial ∧ ∃ t, conn' = { conn with lastRecvHBTime := t }) := by
  unfold decode at h
  rw [if_pos ht] at h
  have hsys := some.inj h
  unfold decodeSystem at hsys
  dsimp only at hsys
  by_cases hb : headType head = msgTypeHeartbeat
  · have hne : headType head ≠ msgTypeJumpSerial := hb ▸ by decide
    rw [if_pos hb] at hsys
    refine .inr (.inr ⟨hne, mtime, ?_⟩)
    split_ifs at hsys <;> exact (Prod.mk.inj hsys).1.symm
  · rw [if_neg hb] at hsys
    split_ifs at hsys with hj hle <;> obtain ⟨rfl, rfl⟩ := Prod.mk.inj hsys
    · exact .inr (.inl ⟨hj, hle, rfl⟩)
    · exact .inl ⟨hj, UInt32.not_le.1 hle, rfl⟩
    · exact .inr (.inr ⟨hj, conn.lastRecvHBTime, rfl⟩)

end

/-- The client's side of a link; `delivered` is the serial of the last frame that gave a worker task
or was an accepted jump. -/
structure Link (μ : Type) where
  connection : Connection μ
  con : Option (Connection μ)
  delivered : UInt32

/-- The receiver decodes a frame on `connection_`, or on a new connection that `connect` has not
stored there yet. -/
inductive LinkEvent
  | frame (mtime : ℕ) (head body : List UInt8)
  | connect (crypter : Option Crypter)
  | early (mtime : ℕ) (head body : List UInt8)
  | store

def buildConnection (terminal : MessageTerminal μ) (crypter : Option Crypter) : Connection μ :=
  ⟨terminal, crypter, none, 0, 0, false, 0⟩

/-- The serial of the last delivered frame after `decode` has made `conn'` and
`task` of one. -/
def deliver (head : List UInt8) (conn' : Connection μ) (task : Option (MessageWorkerTask μ))
    (delivered : UInt32) : UInt32 :=
  if headType head < 0 then
    if headType head = msgTypeJumpSerial ∧ conn'.decodeError = false then headSerial head
    else delivered
  else if task.isSome then headSerial head
  else delivered

/-- One event.  `upflow` stops at the first frame with a decode error, so a
connection with one decodes no more. -/
def Link.step (l : Link μ) : LinkEvent → Option (Link μ)
  | .frame mtime head body =>
    if l.connection.decodeError then none
    else (decode mtime l.connection head body).map fun (conn', task) =>
      { l with connection := conn', delivered := deliver head conn' task l.delivered }
  | .connect crypter =>
    if l.con.isSome then none
    else some { l with con := some (buildConnection l.connection.terminal crypter) }
  | .early mtime head body => l.con.bind fun con =>
    if con.decodeError then none
    else (decode mtime con head body).map fun (con', task) =>
      { l with con := some con', delivered := deliver head con' task l.delivered }
  | .store => l.con.map fun con =>
    -- con->setRecvSerial(connection_->getRecvSerial())
    { l with connection := { con with recvSerial := l.connection.recvSerial }, con := none }

/-- The events that keep the counter honest: a frame that is not refused behind
the counter, and, before `connect` has handed the counter over, no frame that
moves one. -/
def Link.honest (l : Link μ) : LinkEvent → Bool
  | .frame _ head body => !countedRefusal l.connection head body
  | .early _ head _ => headType head < 0 && headType head != msgTypeJumpSerial
  | _ => true

/-- The counter is that of the delivered frames, on both connections serials are
on. -/
structure Link.Counts (l : Link μ) : Prop where
  enableSerial : l.connection.terminal.enableSerial = true
  con_terminal : ∀ con ∈ l.con, con.terminal = l.connection.terminal
  recvSerial : l.connection.recvSerial = l.delivered

theorem recvSerial_eq_deliver {mtime : ℕ} {conn conn' : Connection μ} {head body : List UInt8}
    {task : Option (MessageWorkerTask μ)} (hs : conn.terminal.enableSerial = true)
    (he : conn.decodeError = false) (hok : countedRefusal conn head body = false)
    (h : decode mtime conn head body = some (conn', task)) :
    conn'.terminal = conn.terminal ∧
      conn'.recvSerial = deliver head conn' task conn.recvSerial := by
  unfold deliver
  by_cases ht : headType head < 0
  · rw [if_pos ht]
    rcases decode_system ht h with ⟨hj, -, rfl⟩ | ⟨hj, -, rfl⟩ | ⟨hj, t, rfl⟩
    · simp [hj, he]
    · simp [hj, Connection.setDecodeError]
    · simp [hj]
  · rw [if_neg ht]
    rcases decode_data hs ht h with ⟨hbad, -⟩ | ⟨-, hsome, hser, rfl⟩
    · exact absurd (hok.symm.trans hbad) false_ne_true
    · simp [hsome, hser]

theorem Link.counts_step {l l' : Link μ} {e : LinkEvent} (hl : l.Counts)
    (hok : l.honest e = true) (h : l.step e = some l') : l'.Counts := by
  obtain ⟨hs, hcon, hrecv⟩ := hl
  cases e with
  | frame mtime head body =>
    simp only [Link.step] at h
    split_ifs at h with he
    obtain ⟨⟨conn', task⟩, hd, rfl⟩ := map_eq_some_iff.1 h
    have hok' : countedRefusal l.connection head body = false := by simpa [Link.honest] using hok
    obtain ⟨hterm, hdel⟩ := recvSerial_eq_deliver hs (by simpa using he) hok' hd
    exact ⟨hterm ▸ hs, fun c hc => (hcon c hc).trans hterm.symm, hrecv ▸ hdel⟩
  | connect crypter =>
    obtain ⟨-, h⟩ := ite_none_left_eq_some.1 h
    cases h
    exact ⟨hs, fun c hc => by obtain rfl := some.inj hc; rfl, hrecv⟩
  | early mtime head body =>
    simp only [Link.step] at h
    obtain ⟨con, hc, h⟩ := bind_eq_some_iff.1 h
    split_ifs at h
    obtain ⟨⟨con', task⟩, hd, rfl⟩ := map_eq_some_iff.1 h
    obtain ⟨ht, hj⟩ : headType head < 0 ∧ headType head ≠ msgTypeJumpSerial := by
      simpa [Link.honest] using hok
    have hterm : con'.terminal = con.terminal := by
      rcases decode_system ht hd with ⟨hj', -⟩ | ⟨hj', -⟩ | ⟨-, t, rfl⟩
      · exact absurd hj' hj
      · exact absurd hj' hj
      · rfl
    refine ⟨hs, fun c hc' => ?_, ?_⟩
    · cases hc'
      exact hterm.trans (hcon con hc)
    · simp [deliver, ht, hj, hrecv]
  | store =>
    obtain ⟨con, hc, rfl⟩ := map_eq_some_iff.1 h
    exact ⟨(hcon con hc).symm ▸ hs, fun c hc' => by simp at hc', hrecv⟩

/-- **A refusal keeps the counter exactly where no data frame is refused, and a run without such
refusals counts deliveries only.** -/
theorem recvSerial_counts :
    (∀ (mtime : ℕ) (conn conn' : Connection μ) (head body : List UInt8)
        (task : Option (MessageWorkerTask μ)),
      conn.terminal.enableSerial = true → conn.decodeError = false →
      decode mtime conn head body = some (conn', task) →
      ((conn'.decodeError = true → conn'.recvSerial = conn.recvSerial) ↔
        countedRefusal conn head body = false)) ∧
    (∀ (conn : Connection μ) (es : List LinkEvent) (l : Link μ), conn.terminal.enableSerial = true →
      run (restrict Link.honest Link.step) ⟨conn, none, conn.recvSerial⟩ es = some l →
      l.connection.recvSerial = l.delivered ∧
        ∀ info, headReqSerial (messageHead l.connection info) = l.delivered) := by
  refine ⟨fun mtime conn conn' head body task hs he h => ?_, fun conn es l hs h => ?_⟩
  · by_cases ht : headType head < 0
    · have hc : countedRefusal conn head body = false := by simp [countedRefusal, ht]
      refine iff_of_true (fun herr => ?_) hc
      rcases decode_system ht h with ⟨-, -, rfl⟩ | ⟨-, -, rfl⟩ | ⟨-, t, rfl⟩
      · exact absurd (he.symm.trans herr) false_ne_true
      · rfl
      · rfl
    · rcases decode_data hs ht h with ⟨hbad, -, rfl⟩ | ⟨hok, -, -, rfl⟩
      · exact iff_of_false (fun hkeep => absurd (hkeep rfl) (by simp)) (by simp [hbad])
      · exact iff_of_true (fun herr => absurd (he.symm.trans herr) false_ne_true) hok
  · have h0 : (Link.mk conn none conn.recvSerial).Counts := ⟨hs, by simp, rfl⟩
    have hl : l.Counts :=
      run_restrict_invariant (fun _ _ _ hI hok hstep => Link.counts_step hI hok hstep) h0 h
    exact ⟨hl.recvSerial, fun info => by simp [messageHead, hl.recvSerial]⟩

def openTerminal : MessageTerminal Unit := ⟨false, false, true, [], true⟩

def connAtFive : Connection Unit := { buildConnection openTerminal none with recvSerial := 5 }

def headOfType1 (serial : UInt32) : List UInt8 := encodeHead 0 1 0 0 0 serial 0

/-- **A refused frame is counted**, and the next connection acknowledges it. -/
theorem refused_frame_counted :
    ((decode 0 connAtFive (headOfType1 9) []).map fun r =>
        (r.1.decodeError, r.2.isSome, r.1.recvSerial)) = some (true, false, 6) ∧
      ((run Link.step ⟨connAtFive, none, 5⟩
        [.frame 0 (headOfType1 9) [], .connect none, .store]).map
        fun l => (l.delivered, headReqSerial (messageHead l.connection (jumpSerialInfo 0)))) =
          some (5, 6) := by
  decide +kernel

def takeSixThenReconnect : List LinkEvent :=
  [.frame 0 (headOfType1 6) [], .frame 0 (encodeHead 0 msgTypeJumpSerial 0 0 0 6 0) [],
    .connect none, .store]

theorem recvSerial_counts_at_five :
    (countedRefusal connAtFive (headOfType1 6) [] = false ∧
      ∀ conn' task, decode 0 connAtFive (headOfType1 6) [] = some (conn', task) →
        conn'.decodeError = true → conn'.recvSerial = 5) ∧
    ∃ l, run (restrict Link.honest Link.step) ⟨connAtFive, none, 5⟩ takeSixThenReconnect = some l ∧
      (l.delivered == 6) = true ∧ l.connection.recvSerial = l.delivered := by
  have hok : countedRefusal connAtFive (headOfType1 6) [] = false := by decide +kernel
  refine ⟨⟨hok, fun conn' task h => ?_⟩, ?_⟩
  · exact (recvSerial_counts.1 0 connAtFive conn' _ [] task rfl rfl h).2 hok
  · exact exists_run_and (by decide +kernel) fun l hl _ =>
      (recvSerial_counts.2 connAtFive _ l rfl hl).1

end Corpc.Message
