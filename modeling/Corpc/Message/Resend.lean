/-
# Resending after a reconnect

A sender numbers its messages and keeps those with `needBuffer`; after the link broke, the peer says
up to which serial `R` it has taken them, and the sender scraps its buffer up to `R`, sends the rest
again (`resend`) and goes on sending.
-/

import Corpc.Message.Acknowledge

namespace Corpc.Message

open Corpc.Basis Wire List Connection

variable {μ ν : Type}

/-- The receiver decodes one frame, encoded by the sender in the state `enc info`,
and goes on unless it refuses it. -/
def Connection.accept (mtime : ℕ) (enc : SendMessageInfo → Connection μ) (recv : Connection ν)
    (info : SendMessageInfo) : Option (Connection ν) :=
  (decode mtime recv (messageHead (enc info) info) (encodeBody (enc info) info)).bind
    fun (recv, _) =>
    if recv.decodeError then none else some recv

def takesSerial (recvSerial : UInt32) (info : SendMessageInfo) : Option UInt32 :=
  if info.type = msgTypeJumpSerial then
    if recvSerial < info.serial then some info.serial else none
  else if info.serial = recvSerial + 1 then some info.serial
  else none

/-- The receiver takes the message when its turn has come: nothing but its serial
can make it refuse it. -/
def Connection.WouldAccept (mtime : ℕ) (enc : SendMessageInfo → Connection μ)
    (recv : Connection ν) (info : SendMessageInfo) : Prop :=
  ({ recv with recvSerial := info.serial - 1 }.accept mtime enc info).isSome

def Connection.Plain (mtime : ℕ) (enc : SendMessageInfo → Connection μ) (recv : Connection ν)
    (info : SendMessageInfo) : Prop :=
  info.type = msgTypeJumpSerial ∨ 0 < info.type ∧ recv.WouldAccept mtime enc info

@[simp]
theorem headType_messageHead (conn : Connection μ) (info : SendMessageInfo) :
    headType (messageHead conn info) = info.type := by
  simp [messageHead]

@[simp]
theorem headSerial_messageHead (conn : Connection μ) (info : SendMessageInfo) :
    headSerial (messageHead conn info) = info.serial := by
  simp [messageHead]

section Receiver

variable {mtime : ℕ} {enc : SendMessageInfo → Connection μ} {recv recv' : Connection ν}
  {info : SendMessageInfo}

theorem Connection.accept_data (hs : recv.terminal.enableSerial = true)
    (he : recv.decodeError = false) (ht : 0 < info.type)
    (h : recv.accept mtime enc info = some recv') :
    info.serial = recv.recvSerial + 1 ∧ recv' = { recv with recvSerial := info.serial } := by
  obtain ⟨⟨r, task⟩, hd, h⟩ := Option.bind_eq_some_iff.1 h
  have hneg : ¬headType (messageHead (enc info) info) < 0 := by
    rw [headType_messageHead]
    exact Int32.not_lt.2 (Int32.le_of_lt ht)
  rcases decode_data hs hneg hd with ⟨-, -, rfl⟩ | ⟨-, -, hser, rfl⟩
  · simp at h
  · rw [headSerial_messageHead] at hser
    rw [← hser] at h
    exact ⟨hser, by simpa [he] using h.symm⟩

theorem Connection.accept_eq (hs : recv.terminal.enableSerial = true)
    (he : recv.decodeError = false) (hp : recv.Plain mtime enc info) :
    recv.accept mtime enc info =
      (takesSerial recv.recvSerial info).map fun r => { recv with recvSerial := r } := by
  rcases hp with hj | ⟨ht, hw⟩
  · have hneg : msgTypeJumpSerial < 0 := by decide
    have hne : msgTypeJumpSerial ≠ msgTypeHeartbeat := by decide
    by_cases hle : info.serial ≤ recv.recvSerial
    · simp [accept, takesSerial, decode, decodeSystem, hneg, hj, hne, hle,
        UInt32.not_lt.2 hle, setDecodeError]
    · have hlt : recv.recvSerial < info.serial := UInt32.not_le.1 hle
      simp [accept, takesSerial, decode, decodeSystem, hneg, hj, hne, hle, hlt, he]
  · have hne : info.type ≠ msgTypeJumpSerial := by
      rintro h
      rw [h] at ht
      exact absurd ht (by decide)
    by_cases hser : info.serial = recv.recvSerial + 1
    · have hback : info.serial - 1 = recv.recvSerial := by rw [hser]; simp
      obtain ⟨r, hr⟩ := Option.isSome_iff_exists.1 hw
      rw [hback] at hr
      rw [show recv.accept mtime enc info = some r from hr, (recv.accept_data hs he ht hr).2]
      simp [takesSerial, hne, hser]
    · cases ha : recv.accept mtime enc info with
      | none => simp [takesSerial, hne, hser]
      | some r => exact absurd (recv.accept_data hs he ht ha).1 hser

/-- **On a stream of plain frames `decode` is the counter.** -/
theorem Connection.run_accept_eq {infos : List SendMessageInfo}
    (hs : recv.terminal.enableSerial = true) (he : recv.decodeError = false)
    (hp : ∀ info ∈ infos, recv.Plain mtime enc info) :
    run (Connection.accept mtime enc) recv infos =
      (run takesSerial recv.recvSerial infos).map fun r => { recv with recvSerial := r } := by
  induction infos generalizing recv with
  | nil => rfl
  | cons info infos ih =>
    rw [run_cons, run_cons, accept_eq hs he (hp info (by simp))]
    cases takesSerial recv.recvSerial info with
    | none => rfl
    | some r =>
      have hp' : ∀ i ∈ infos, { recv with recvSerial := r }.Plain mtime enc i :=
        fun i hi => hp i (mem_cons_of_mem _ hi)
      exact @ih { recv with recvSerial := r } hs he hp'

end Receiver

/-- What happens at the sender before the link breaks: a call of `send`, or the
worker scraps what the peer has acknowledged. -/
inductive SenderOp
  | send (call : SendCall)
  | scrap (serial : UInt32)

def Connection.perform (conn : Connection μ) :
    SenderOp → Option (Connection μ × Option SendMessageInfo)
  | .send call => conn.send call
  | .scrap serial => some (conn.scrapMessages serial, none)

def Connection.performAll (conn : Connection μ) :
    List SenderOp → Option (Connection μ × List SendMessageInfo)
  | [] => some (conn, [])
  | op :: ops => (conn.perform op).bind fun (conn, info) =>
    (conn.performAll ops).map fun (conn, infos) => (conn, info.toList ++ infos)

/-- The messages of a history that are given a serial, each with its
`needBuffer`.  A closed connection drops the ones without it. -/
def numbered (serial : UInt32) : List SenderOp → List (Bool × SendMessageInfo)
  | [] => []
  | .scrap _ :: ops => numbered serial ops
  | .send call :: ops =>
    if call.isOpen₁ || call.needBuffer then
      (call.needBuffer, call.info (serial + 1)) :: numbered (serial + 1) ops
    else numbered serial ops

def kept (sent : List (Bool × SendMessageInfo)) : List SendMessageInfo :=
  (sent.filter (·.1)).map (·.2)

def PositiveTypes (ops : List SenderOp) : Prop :=
  ∀ call, SenderOp.send call ∈ ops → 0 < call.type

/-- The connection numbers its messages, and its buffer is in step with it and
holds a final part of the messages to be kept. -/
structure Connection.Keeps (conn : Connection μ) (sent : List SendMessageInfo)
    (b : MessageBuffer) : Prop where
  enableSerial : conn.terminal.enableSerial = true
  msgBuffer : conn.msgBuffer = some b
  broken : b.broken = false
  lastSerial : b.lastSerial = conn.lastSendSerial
  suffix : b.bufMsglink <:+ sent

@[simp]
theorem kept_nil : kept [] = [] := rfl

@[simp]
theorem kept_append (l₁ l₂ : List (Bool × SendMessageInfo)) :
    kept (l₁ ++ l₂) = kept l₁ ++ kept l₂ := by
  simp [kept]

@[simp]
theorem kept_cons (x : Bool × SendMessageInfo) (l : List (Bool × SendMessageInfo)) :
    kept (x :: l) = (if x.1 then [x.2] else []) ++ kept l := by
  rcases x with ⟨_ | _, m⟩ <;> simp [kept]

variable {m : SendMessageInfo}

theorem mem_kept {l : List (Bool × SendMessageInfo)} (h : m ∈ kept l) :
    (true, m) ∈ l := by
  obtain ⟨⟨k, m'⟩, hmem, rfl⟩ := mem_map.1 h
  obtain ⟨hl, rfl : k = true⟩ := mem_filter.1 hmem
  exact hl

theorem recordSend_next {b : MessageBuffer} {sent : List SendMessageInfo}
    (needBuffer : Bool) (hb : b.broken = false) (hm : m.serial = b.lastSerial + 1)
    (hsuf : b.bufMsglink <:+ sent) :
    (recordSend needBuffer m b).broken = false ∧ (recordSend needBuffer m b).lastSerial = m.serial ∧
      (recordSend needBuffer m b).bufMsglink <:+ sent ++ kept [(needBuffer, m)] := by
  cases needBuffer with
  | false => simpa [recordSend, MessageBuffer.jumpToSerial, hb, hm] using hsuf
  | true =>
    have hev : b.evict.bufMsglink <:+ sent := by
      rcases b.evict_bufMsglink with he | he <;> rw [he]
      · exact hsuf
      · exact (tail_suffix _).trans hsuf
    obtain ⟨dropped, rfl⟩ := hev
    simp [recordSend, MessageBuffer.insertMessage, hb, hm]

section Sender

variable {conn conn' : Connection μ} {sent : List SendMessageInfo} {b : MessageBuffer}

theorem Connection.Keeps.number (h : conn.Keeps sent b) {call : SendCall} (ht : 0 < call.type) :
    ∃ b', (conn.number call).1.Keeps
        (sent ++ kept [(call.needBuffer, call.info (conn.lastSendSerial + 1))]) b' ∧
      (conn.number call).1.lastSendSerial = conn.lastSendSerial + 1 ∧
      (conn.number call).2 =
        if call.isOpen₂ then some (call.info (conn.lastSendSerial + 1)) else none := by
  obtain ⟨hs, hbuf, hbr, hlast, hsuf⟩ := h
  have hrec := recordSend_next (m := call.info (conn.lastSendSerial + 1)) call.needBuffer hbr
    (by simp [SendCall.info, hlast]) hsuf
  simp only [Connection.number, ht, hs, and_self, if_true]
  exact ⟨_, ⟨hs, by simp [hbuf], hrec.1, hrec.2.1, hrec.2.2⟩, rfl, trivial⟩

theorem Connection.Keeps.scrapMessages (h : conn.Keeps sent b) (serial : UInt32) :
    (conn.scrapMessages serial).Keeps sent (b.scrapMessages serial) := by
  obtain ⟨hs, hbuf, hbr, hlast, hsuf⟩ := h
  refine ⟨hs, by simp [Connection.scrapMessages, hbuf], hbr, hlast, ?_⟩
  rw [b.scrapMessages_bufMsglink]
  exact (dropWhile_suffix _).trans hsuf

theorem Connection.Keeps.send_eq (h : conn.Keeps sent b) {call : SendCall} (ht : 0 < call.type) :
    conn.send call =
      some (if call.isOpen₁ || call.needBuffer then conn.number call else (conn, none)) := by
  have hneg : ¬call.type < 0 := Int32.not_lt.2 (Int32.le_of_lt ht)
  unfold send
  cases call.isOpen₁ <;> cases call.needBuffer <;> simp [hneg, h.msgBuffer, h.enableSerial]

/-- **A history keeps the buffer in step** and leaves in it a final part of the messages to be
kept. -/
theorem Connection.Keeps.performAll (h : conn.Keeps sent b) {ops : List SenderOp}
    (hpos : PositiveTypes ops) :
    ∃ conn' out b', conn.performAll ops = some (conn', out) ∧
      conn'.Keeps (sent ++ kept (numbered conn.lastSendSerial ops)) b' ∧
      conn'.lastSendSerial =
        conn.lastSendSerial + UInt32.ofNat (numbered conn.lastSendSerial ops).length ∧
      out.Sublist ((numbered conn.lastSendSerial ops).map (·.2)) ∧
      ((∀ call, SenderOp.send call ∈ ops → call.isOpen₂ = true) →
        out = (numbered conn.lastSendSerial ops).map (·.2)) := by
  induction ops generalizing conn sent b with
  | nil =>
    exact ⟨conn, [], b, rfl, by simpa [numbered] using h, by simp [numbered], by simp, fun _ => rfl⟩
  | cons op ops ih =>
    have hrest : PositiveTypes ops := fun call hc => hpos call (mem_cons_of_mem _ hc)
    cases op with
    | scrap serial =>
      obtain ⟨c, out, b', hall, hk, hser, hsub, hopen⟩ := ih (h.scrapMessages serial) hrest
      exact ⟨c, out, b', by simp [performAll, perform, hall], hk, hser,
        hsub, fun ho => hopen fun call hc => ho call (mem_cons_of_mem _ hc)⟩
    | send call =>
      have ht : 0 < call.type := hpos call (by simp)
      have hsend := h.send_eq ht
      by_cases hn : (call.isOpen₁ || call.needBuffer) = true
      · rw [if_pos hn] at hsend
        obtain ⟨b₁, hk₁, hser₁, hout₁⟩ := h.number ht
        obtain ⟨c, out, b', hall, hk, hser, hsub, hopen⟩ := ih hk₁ hrest
        rw [hser₁] at hk hser hsub hopen
        refine ⟨c, (conn.number call).2.toList ++ out, b', ?_, ?_, ?_, ?_, fun ho => ?_⟩
        · simp [performAll, perform, hsend, hall]
        · simpa [numbered, hn] using hk
        · rw [hser]
          simp [numbered, hn, UInt32.add_assoc, UInt32.add_comm 1]
        · rw [hout₁]
          cases call.isOpen₂
          · simpa [numbered, hn] using hsub.cons _
          · simpa [numbered, hn] using hsub
        · rw [hout₁, ho call (by simp), hopen fun c hc => ho c (mem_cons_of_mem _ hc)]
          simp [numbered, hn]
      · rw [if_neg hn] at hsend
        obtain ⟨c, out, b', hall, hk, hser, hsub, hopen⟩ := ih h hrest
        refine ⟨c, out, b', ?_, ?_, ?_, ?_, fun ho => ?_⟩
        · simp [performAll, perform, hsend, hall]
        · simpa [numbered, hn] using hk
        · simpa [numbered, hn] using hser
        · simpa [numbered, hn] using hsub
        · simpa [numbered, hn] using hopen fun c hc => ho c (mem_cons_of_mem _ hc)

end Sender

/-- The serials after which `resend` gets a kept message to the receiver: the one
before it, or an earlier one, but 0, from which it announces nothing. -/
def follows (a b : UInt32) : Prop := b = a + 1 ∨ 0 < a ∧ a < b - 1

instance (a b : UInt32) : Decidable (follows a b) := inferInstanceAs (Decidable (_ ∨ _))

variable {serial : UInt32}

theorem takesSerial_data (ht : 0 < m.type) :
    takesSerial serial m = if m.serial = serial + 1 then some m.serial else none := by
  have hm : m.type ≠ msgTypeJumpSerial := by
    rintro h
    exact absurd (h ▸ ht) (by decide)
  simp [takesSerial, hm]

theorem takesSerial_jump (serial target : UInt32) :
    takesSerial serial (jumpSerialInfo target) = if serial < target then some target else none :=
  if_pos rfl

theorem run_resendLoop_cons (ht : 0 < m.type) (i : ℕ) (serial : UInt32)
    (rest : List SendMessageInfo) :
    run takesSerial serial (resendLoop (fun _ => true) i serial (m :: rest)) =
      if follows serial m.serial then
        run takesSerial m.serial (resendLoop (fun _ => true) (i + 1) m.serial rest)
      else none := by
  have hback : m.serial - 1 + 1 = m.serial := by simp
  by_cases hj : 0 < serial ∧ m.serial ≠ serial + 1
  · have hf : follows serial m.serial ↔ serial < m.serial - 1 := by simp [follows, hj]
    simp only [resendLoop, if_true, if_pos hj, cons_append, nil_append, run_cons,
      takesSerial_jump, hf]
    split_ifs
    · simp [takesSerial_data ht, hback]
    · rfl
  · have hf : follows serial m.serial ↔ m.serial = serial + 1 := by
      refine ⟨fun h => h.elim id fun h' => ?_, .inl⟩
      by_contra hne
      exact hj ⟨h'.1, hne⟩
    simp only [resendLoop, if_true, if_neg hj, nil_append, run_cons, takesSerial_data ht, hf]
    split_ifs <;> rfl

variable {msgs : List SendMessageInfo}

theorem run_resendLoop (hpos : ∀ m ∈ msgs, 0 < m.type) (i : ℕ) (serial r : UInt32) :
    run takesSerial serial (resendLoop (fun _ => true) i serial msgs) = some r ↔
      (serial :: msgs.map (·.serial)).IsChain follows ∧
        r = (msgs.map (·.serial)).getLastD serial := by
  induction msgs generalizing i serial with
  | nil => simp [resendLoop, eq_comm]
  | cons m rest ih =>
    rw [run_resendLoop_cons (hpos m (by simp))]
    have ih := ih (fun m hm => hpos m (mem_cons_of_mem _ hm)) (i + 1) m.serial
    rw [map_cons, isChain_cons_cons, getLastD_cons]
    by_cases hf : follows serial m.serial
    · rw [if_pos hf, ih]
      simp only [hf, true_and]
    · simp [hf]

theorem run_numbered {calls : List SendCall} (hopen : ∀ c ∈ calls, c.isOpen₁ = true)
    (hpos : ∀ c ∈ calls, 0 < c.type) (serial r : UInt32) :
    (run takesSerial r ((numbered serial (calls.map .send)).map (·.2))).isSome ↔
      (calls ≠ [] → r = serial) := by
  induction calls generalizing serial r with
  | nil => simp [numbered]
  | cons c rest ih =>
    have ih := ih (fun x hx => hopen x (mem_cons_of_mem _ hx))
      (fun x hx => hpos x (mem_cons_of_mem _ hx)) (serial + 1) (serial + 1)
    have ht : 0 < (c.info (serial + 1)).type := hpos c (by simp)
    have hser : (c.info (serial + 1)).serial = r + 1 ↔ r = serial := by
      simp [SendCall.info, eq_comm]
    simp only [map_cons, numbered, hopen c (by simp), Bool.true_or, if_true, run_cons,
      takesSerial_data ht, hser]
    by_cases h : r = serial
    · simp only [h, if_true, Option.bind_some, ne_eq, implies_true, iff_true]
      exact ih.2 fun _ => rfl
    · simp [h]

/-- What `scrapMessages(R)`, `resend()` and further calls of `send` queue on the
open new connection. -/
def Connection.reconnect (conn : Connection μ) (R : UInt32) (further : List SendCall) :
    Option (List SendMessageInfo) :=
  ((conn.scrapMessages R).performAll (further.map .send)).map fun (_, out) =>
    (conn.scrapMessages R).resend (fun _ => true) ++ out

/-- **When the receiver takes it all**, in terms of the serials above `R` in the
buffer and the last serial given out. -/
def Resendable (R lastSendSerial : UInt32) (serials : List UInt32) (more : Prop) : Prop :=
  (∀ first ∈ serials.head?, first = R + 1) ∧ serials.IsChain follows ∧
    (more → serials.getLastD R = lastSendSerial)

theorem run_resend (hpos : ∀ m ∈ msgs, 0 < m.type) (R r : UInt32) :
    run takesSerial R (resendLoop (fun _ => true) 0 0 msgs) = some r ↔
      (∀ first ∈ (msgs.map (·.serial)).head?, first = R + 1) ∧
        (msgs.map (·.serial)).IsChain follows ∧ r = (msgs.map (·.serial)).getLastD R := by
  cases msgs with
  | nil => simp [resendLoop, eq_comm]
  | cons m rest =>
    have ht : 0 < m.type := hpos m (by simp)
    have hrest := run_resendLoop (fun m hm => hpos m (mem_cons_of_mem _ hm)) 1 m.serial r
    have h0 : ¬((0 : UInt32) < 0 ∧ m.serial ≠ 0 + 1) := by simp
    simp only [resendLoop, if_true, if_neg h0, nil_append, run_cons, takesSerial_data ht,
      map_cons, List.head?_cons, Option.mem_some_iff, forall_eq', getLastD_cons]
    by_cases hm : m.serial = R + 1
    · simp only [hm, true_and]
      rw [← hm]
      exact hrest
    · simp [hm]

variable {further : List SendCall}

theorem run_reconnect (hmsgs : ∀ m ∈ msgs, 0 < m.type) (hopen : ∀ c ∈ further, c.isOpen₁ = true)
    (hpos : ∀ c ∈ further, 0 < c.type) (R lastSendSerial : UInt32) :
    (run takesSerial R (resendLoop (fun _ => true) 0 0 msgs ++
        (numbered lastSendSerial (further.map .send)).map (·.2))).isSome ↔
      Resendable R lastSendSerial (msgs.map (·.serial)) (further ≠ []) := by
  rw [run_append]
  cases hr : run takesSerial R (resendLoop (fun _ => true) 0 0 msgs) with
  | none =>
    refine iff_of_false (by simp) fun h => ?_
    have hsome := (run_resend hmsgs R _).2 ⟨h.1, h.2.1, rfl⟩
    rw [hr] at hsome
    exact absurd hsome (by simp)
  | some r =>
    obtain ⟨hfirst, hchain, rfl⟩ := (run_resend hmsgs R r).1 hr
    rw [Option.bind_some, run_numbered hopen hpos]
    exact ⟨fun h => ⟨hfirst, hchain, h⟩, fun h => h.2.2⟩

/-- The serials of a list of messages count on from `serial`. -/
def Consecutive : UInt32 → List (Bool × SendMessageInfo) → Prop
  | _, [] => True
  | serial, x :: l => x.2.serial = serial + 1 ∧ Consecutive (serial + 1) l

theorem consecutive_numbered (serial : UInt32) (ops : List SenderOp) :
    Consecutive serial (numbered serial ops) := by
  induction ops generalizing serial with
  | nil => trivial
  | cons op ops ih =>
    cases op with
    | scrap => exact ih serial
    | send call =>
      unfold numbered
      split_ifs
      · exact ⟨rfl, ih (serial + 1)⟩
      · exact ih serial

theorem Consecutive.drop {l : List (Bool × SendMessageInfo)}
    (h : Consecutive serial l) {k : ℕ} (hk : k ≤ l.length) :
    Consecutive (serial + UInt32.ofNat k) (l.drop k) := by
  induction k generalizing serial l with
  | zero => simpa using h
  | succ k ih =>
    cases l with
    | nil => simp at hk
    | cons x l =>
      have h' := ih h.2 (by simpa using hk)
      simpa [UInt32.ofNat_add, UInt32.add_assoc, UInt32.add_comm 1] using h'

theorem Consecutive.map_toNat {l : List (Bool × SendMessageInfo)}
    (h : Consecutive serial l) (hw : serial.toNat + l.length < 2 ^ 32) :
    l.map (fun x => x.2.serial.toNat) = List.range' (serial.toNat + 1) l.length := by
  induction l generalizing serial with
  | nil => rfl
  | cons x l ih =>
    have hnext : (serial + 1).toNat = serial.toNat + 1 := by
      rw [UInt32.toNat_add]
      exact Nat.mod_eq_of_lt (by simp at hw ⊢; omega)
    rw [map_cons, h.1, hnext, ih h.2 (by simp at hw; omega), hnext, length_cons, List.range'_succ]

section Missed

variable {R : UInt32} {l : List (Bool × SendMessageInfo)}

theorem Consecutive.bounds (h : Consecutive R l) (hw : R.toNat + l.length < 2 ^ 32)
    {x : Bool × SendMessageInfo} (hx : x ∈ l) :
    R.toNat < x.2.serial.toNat ∧ x.2.serial.toNat ≤ R.toNat + l.length := by
  have hmem : x.2.serial.toNat ∈ List.range' (R.toNat + 1) l.length :=
    h.map_toNat hw ▸ mem_map_of_mem hx
  have hrange := mem_range'_1.1 hmem
  omega

theorem Consecutive.pairwise (h : Consecutive R l) (hw : R.toNat + l.length < 2 ^ 32) :
    l.Pairwise fun x y => x.2.serial < y.2.serial := by
  have hlt : (l.map fun x => x.2.serial.toNat).Pairwise (· < ·) :=
    h.map_toNat hw ▸ pairwise_lt_range'
  exact (pairwise_map.1 hlt).imp UInt32.lt_iff_toNat_lt.2

theorem Consecutive.pairwise_kept (h : Consecutive R l) (hw : R.toNat + l.length < 2 ^ 32) :
    (kept l).Pairwise fun m m' => m.serial < m'.serial :=
  pairwise_map.2 ((h.pairwise hw).sublist filter_sublist)

theorem follows_of_lt {a b : UInt32} (ha : 0 < a) (h : a < b) : follows a b := by
  by_cases hb : b = a + 1
  · exact .inl hb
  · refine .inr ⟨ha, ?_⟩
    rw [UInt32.lt_iff_toNat_lt] at h ⊢
    have hone : (1 : UInt32) ≤ b := UInt32.le_iff_toNat_le.2 (by simp; omega)
    have hne : b.toNat ≠ a.toNat + 1 := fun he => hb (UInt32.toNat_inj.1 (by
      rw [UInt32.toNat_add]
      have := b.toNat_lt
      simp
      omega))
    rw [UInt32.toNat_sub_of_le _ _ hone]
    simp
    omega

section

variable (h : Consecutive R l) (hw : R.toNat + l.length < 2 ^ 32)
include h hw

theorem Consecutive.isChain_kept :
    ((kept l).map (·.serial)).IsChain follows := by
  refine (pairwise_map.2 ((h.pairwise_kept hw).imp_of_mem fun hm _ hlt => ?_)).isChain
  have hb : R.toNat < _ := (h.bounds hw (mem_kept hm)).1
  exact follows_of_lt (UInt32.lt_iff_toNat_lt.2 (by simpa using Nat.zero_lt_of_lt hb)) hlt

theorem Consecutive.head_kept :
    (∀ first ∈ ((kept l).map (·.serial)).head?, first = R + 1) ↔
      ((∃ x ∈ l, x.1 = true) → ∀ x ∈ l.head?, x.1 = true) := by
  cases l with
  | nil => simp
  | cons x l =>
    rcases x with ⟨_ | _, m⟩
    · have hempty : (¬∃ x ∈ l, x.1 = true) ↔ kept l = [] := by
        simp [kept, filter_eq_nil_iff]
      have hone : (R + 1).toNat = R.toNat + 1 := by
        rw [UInt32.toNat_add]
        exact Nat.mod_eq_of_lt (by simp at hw ⊢; omega)
      rw [show kept ((false, m) :: l) = kept l by simp]
      cases hk : kept l with
      | nil => simpa using hempty.2 hk
      | cons m' rest =>
        have hmem : (true, m') ∈ l := mem_kept (by simp [hk])
        have hlt := (h.2.bounds (by simp at hw; omega) hmem).1
        refine iff_of_false (fun hall => ?_) fun hall => ?_
        · have hfirst := hall m'.serial (by simp)
          rw [hfirst] at hlt
          exact Nat.lt_irrefl _ hlt
        · exact Bool.false_ne_true (hall ⟨(true, m'), by simp [hmem], rfl⟩ (false, m) (by simp))
    · have hm : m.serial = R + 1 := h.1
      simp [hm]

theorem Consecutive.last_kept :
    ((kept l).map (·.serial)).getLastD R = R + UInt32.ofNat l.length ↔
      ∀ x ∈ l.getLast?, x.1 = true := by
  rcases eq_nil_or_concat l with rfl | ⟨init, x, rfl⟩
  · simp
  · rw [concat_eq_append] at h hw ⊢
    have hx : x.2.serial = R + UInt32.ofNat (init ++ [x]).length := by
      have hdrop := h.drop (k := init.length) (by simp)
      rw [drop_left] at hdrop
      rw [hdrop.1, length_append, UInt32.ofNat_add, UInt32.add_assoc]
      rfl
    rw [← hx]
    cases hb : x.1 with
    | true => simp [hb]
    | false =>
      refine iff_of_false (fun heq => ?_) (by simp [hb])
      rw [kept_append, show kept [x] = [] by simp [hb], append_nil] at heq
      have hmem : ((kept init).map (·.serial)).getLastD R ∈ R :: (kept init).map (·.serial) :=
        getLastD_mem_cons
      rcases mem_cons.1 hmem with hR | hm
      · have hlt := (h.bounds hw (x := x) (by simp)).1
        rw [← heq, hR] at hlt
        exact Nat.lt_irrefl _ hlt
      · obtain ⟨m, hm, hser⟩ := mem_map.1 hm
        have hlt := (pairwise_append.1 (h.pairwise hw)).2.2 _ (mem_kept hm) x (by simp)
        rw [← heq, ← hser] at hlt
        exact UInt32.lt_irrefl _ hlt

/-- **The condition on the calls**, short of the end of the range of serials and with every kept
message still in the buffer. -/
theorem Consecutive.resendable_iff (more : Prop) :
    Resendable R (R + UInt32.ofNat l.length) ((kept l).map (·.serial)) more ↔
      ((∃ x ∈ l, x.1 = true) → ∀ x ∈ l.head?, x.1 = true) ∧
        (more → ∀ x ∈ l.getLast?, x.1 = true) := by
  unfold Resendable
  rw [h.head_kept hw, h.last_kept hw]
  simp [h.isChain_kept hw]

end

end Missed

theorem Consecutive.take {l : List (Bool × SendMessageInfo)}
    (h : Consecutive serial l) (k : ℕ) : Consecutive serial (l.take k) := by
  induction k generalizing serial l with
  | zero => trivial
  | succ k ih =>
    cases l with
    | nil => trivial
    | cons x l => exact ⟨h.1, ih h.2⟩

theorem Consecutive.dropWhile_link {sent : List (Bool × SendMessageInfo)}
    {link : List SendMessageInfo} {k : ℕ} (h : Consecutive serial sent)
    (hw : serial.toNat + sent.length < 2 ^ 32) (hk : k ≤ sent.length) (hsuf : link <:+ kept sent)
    (hstill : ∀ m ∈ kept sent, serial + UInt32.ofNat k < m.serial → m ∈ link) :
    link.dropWhile (fun m => m.serial ≤ serial + UInt32.ofNat k) = kept (sent.drop k) := by
  have hR : (serial + UInt32.ofNat k).toNat = serial.toNat + k := by
    rw [UInt32.toNat_add, UInt32.toNat_ofNat_of_lt' (by rw [UInt32.size]; omega)]
    exact Nat.mod_eq_of_lt (by omega)
  have htake : ∀ m ∈ kept (sent.take k), m.serial ≤ serial + UInt32.ofNat k := by
    intro m hm
    have hb := ((h.take k).bounds (by simp; omega) (mem_kept hm)).2
    rw [length_take, Nat.min_eq_left hk] at hb
    exact UInt32.le_iff_toNat_le.2 (hR ▸ hb)
  have hdrop : ∀ m ∈ kept (sent.drop k), ¬m.serial ≤ serial + UInt32.ofNat k := by
    intro m hm
    have hb := ((h.drop hk).bounds (by rw [hR]; simp; omega) (mem_kept hm)).1
    exact UInt32.not_le.2 (UInt32.lt_iff_toNat_lt.2 hb)
  have hall : (kept sent).dropWhile (fun m => m.serial ≤ serial + UInt32.ofNat k) =
      kept (sent.drop k) := by
    conv_lhs => rw [← take_append_drop k sent, kept_append]
    rw [dropWhile_append_of_pos (by simpa using htake)]
    cases hd : kept (sent.drop k) with
    | nil => rfl
    | cons m rest => exact dropWhile_cons_of_neg (by simpa using hdrop m (by simp [hd]))
  obtain ⟨gone, hgone⟩ := hsuf
  have hpw := h.pairwise_kept hw
  rw [← hgone] at hpw hall
  -- a message above R that has left the buffer would be in it, after itself
  have hpre : ∀ m ∈ gone, m.serial ≤ serial + UInt32.ofNat k := by
    intro m hm
    by_contra hlt
    have hin : m ∈ link := hstill m (hgone ▸ mem_append_left _ hm) (UInt32.not_le.1 hlt)
    exact UInt32.lt_irrefl _ ((pairwise_append.1 hpw).2.2 m hm m hin)
  rwa [dropWhile_append_of_pos (by simpa using hpre)] at hall

theorem mem_numbered {ops : List SenderOp} {x : Bool × SendMessageInfo}
    (h : x ∈ numbered serial ops) :
    ∃ call serial', SenderOp.send call ∈ ops ∧ x.2 = call.info serial' := by
  induction ops generalizing serial with
  | nil => simp [numbered] at h
  | cons op ops ih =>
    have hrest : ∀ serial', x ∈ numbered serial' ops →
        ∃ call s, SenderOp.send call ∈ op :: ops ∧ x.2 = call.info s := fun serial' hx => by
      obtain ⟨call, s, hc, hs⟩ := ih hx
      exact ⟨call, s, mem_cons_of_mem _ hc, hs⟩
    cases op with
    | scrap => exact hrest serial h
    | send call =>
      unfold numbered at h
      split_ifs at h
      · rcases mem_cons.1 h with rfl | hx
        · exact ⟨call, serial + 1, by simp, rfl⟩
        · exact hrest _ hx
      · exact hrest _ h

theorem mem_resendLoop {isOpen : ℕ → Bool} {i : ℕ} {info : SendMessageInfo}
    (h : info ∈ resendLoop isOpen i serial msgs) :
    (∃ s, info = jumpSerialInfo s) ∨ info ∈ msgs := by
  induction msgs generalizing i serial with
  | nil => simp [resendLoop] at h
  | cons m rest ih =>
    unfold resendLoop at h
    split_ifs at h
    · rcases mem_append.1 h with hj | hm
      · exact .inl ⟨_, mem_singleton.1 hj⟩
      · rcases mem_cons.1 hm with rfl | hm
        · exact .inr (by simp)
        · exact (ih hm).imp_right (mem_cons_of_mem _)
    · rcases mem_cons.1 h with rfl | hm
      · exact .inr (by simp)
      · exact (ih hm).imp_right (mem_cons_of_mem _)
    · simp at h

theorem Connection.recvSerial_of_run_accept {mtime : ℕ} {enc : SendMessageInfo → Connection μ}
    {recv recv' : Connection ν} {infos : List SendMessageInfo}
    (hs : recv.terminal.enableSerial = true) (he : recv.decodeError = false)
    (hpos : ∀ info ∈ infos, 0 < info.type)
    (h : run (Connection.accept mtime enc) recv infos = some recv') :
    recv'.recvSerial = recv.recvSerial + UInt32.ofNat infos.length := by
  induction infos generalizing recv with
  | nil =>
    cases h
    simp
  | cons info infos ih =>
    rw [run_cons] at h
    obtain ⟨r, hr, hrest⟩ := Option.bind_eq_some_iff.1 h
    obtain ⟨hser, rfl⟩ := accept_data hs he (hpos info (by simp)) hr
    have ih := @ih { recv with recvSerial := info.serial } hs he
      (fun i hi => hpos i (mem_cons_of_mem _ hi)) hrest
    rw [ih, hser]
    simp [UInt32.ofNat_add, UInt32.add_assoc, UInt32.add_comm 1]

/-- A receiver with serials on that has refused nothing and has counted up to
`serial`. -/
structure Connection.Receives (recv : Connection ν) (serial : UInt32) : Prop where
  enableSerial : recv.terminal.enableSerial = true
  decodeError : recv.decodeError = false
  recvSerial : recv.recvSerial = serial

def OpenCalls (calls : List SendCall) : Prop :=
  ∀ c ∈ calls, c.isOpen₁ = true ∧ c.isOpen₂ = true ∧ 0 < c.type

/-- **After a reconnect, in terms of the buffer.** -/
theorem Connection.Keeps.reconnect_accepted_iff {conn : Connection μ} {b : MessageBuffer}
    {sent : List SendMessageInfo} (h : conn.Keeps sent b) (hsent : ∀ m ∈ sent, 0 < m.type)
    {recv : Connection ν} {R : UInt32} (hrecv : recv.Receives R)
    (hfur : OpenCalls further) {mtime : ℕ} {enc : SendMessageInfo → Connection μ}
    (hbody : ∀ m ∈ sent, recv.WouldAccept mtime enc m)
    (hmore : ∀ call ∈ further, ∀ serial, recv.WouldAccept mtime enc (call.info serial)) :
    ∃ stream, conn.reconnect R further = some stream ∧
      ((run (Connection.accept mtime enc) recv stream).isSome ↔ Resendable R conn.lastSendSerial
          ((b.bufMsglink.dropWhile fun m => m.serial ≤ R).map (·.serial)) (further ≠ [])) := by
  have hk := h.scrapMessages R
  have hpos : PositiveTypes (further.map .send) := fun call hc =>
    (hfur call (by simpa using hc)).2.2
  obtain ⟨c', out, b', hall, -, -, -, hout⟩ := hk.performAll hpos
  have hout := hout fun call hc => (hfur call (by simpa using hc)).2.1
  have hlink : ∀ m ∈ b.bufMsglink.dropWhile fun m => m.serial ≤ R, m ∈ sent := fun m hm =>
    h.suffix.subset ((dropWhile_suffix _).subset hm)
  have hresend : (conn.scrapMessages R).resend (fun _ => true) =
      resendLoop (fun _ => true) 0 0 (b.bufMsglink.dropWhile fun m => m.serial ≤ R) := by
    simp [resend, hk.msgBuffer]
  refine ⟨_, by rw [reconnect, hall]; rfl, ?_⟩
  rw [hresend, hout, run_accept_eq hrecv.enableSerial hrecv.decodeError ?_,
    Option.isSome_map, hrecv.recvSerial]
  · exact run_reconnect (fun m hm => hsent m (hlink m hm)) (fun c hc => (hfur c hc).1)
      (fun c hc => (hfur c hc).2.2) R _
  · intro info hinfo
    rcases mem_append.1 hinfo with hr | hf
    · rcases mem_resendLoop hr with ⟨s, rfl⟩ | hm
      · exact .inl rfl
      · exact .inr ⟨hsent info (hlink info hm), hbody info (hlink info hm)⟩
    · obtain ⟨x, hx, rfl⟩ := mem_map.1 hf
      obtain ⟨call, s, hc, heq⟩ := mem_numbered hx
      have hc : call ∈ further := by simpa using hc
      rw [heq]
      exact .inr ⟨(hfur call hc).2.2, hmore call hc s⟩

/-- **When the peer accepts what is sent after a reconnect.**  As long as serials do not wrap around
and every kept message above `R` is still in the buffer: if the first missed message was kept or
none was, and, if more is sent, the last message was kept or none is missed. -/
theorem resend_accepted_iff {conn conn' : Connection μ} {maxMsgNum : UInt32}
    {recv₀ recv₁ recv : Connection ν} {ops : List SenderOp}
    {out accepted : List SendMessageInfo} {mtime₀ mtime : ℕ}
    {enc₀ enc : SendMessageInfo → Connection μ} (hserial : conn.terminal.enableSerial = true)
    (hbuf : conn.msgBuffer = some ((MessageBuffer.new maxMsgNum).reset conn.lastSendSerial))
    (hops : PositiveTypes ops) (hall : conn.performAll ops = some (conn', out))
    (hrecv₀ : recv₀.Receives conn.lastSendSerial) (hpre : accepted <+: out)
    (hacc : run (Connection.accept mtime₀ enc₀) recv₀ accepted = some recv₁)
    (hrecv : recv.Receives recv₁.recvSerial) (hfur : OpenCalls further)
    (hbody : ∀ call, SenderOp.send call ∈ ops ∨ call ∈ further →
      ∀ serial, recv.WouldAccept mtime enc (call.info serial)) :
    ∃ b stream, conn'.msgBuffer = some b ∧ b.broken = false ∧
      conn'.reconnect recv.recvSerial further = some stream ∧
      ((run (Connection.accept mtime enc) recv stream).isSome ↔
        Resendable recv.recvSerial conn'.lastSendSerial
          ((b.bufMsglink.dropWhile fun m => m.serial ≤ recv.recvSerial).map (·.serial))
          (further ≠ [])) ∧
      ∀ sent, sent = numbered conn.lastSendSerial ops →
        conn.lastSendSerial.toNat + sent.length < 2 ^ 32 →
        (∀ m ∈ kept sent, recv.recvSerial < m.serial → m ∈ b.bufMsglink) →
        ((run (Connection.accept mtime enc) recv stream).isSome ↔
          ((∃ x ∈ sent.drop accepted.length, x.1 = true) →
            ∀ x ∈ (sent.drop accepted.length).head?, x.1 = true) ∧
          (further ≠ [] → ∀ x ∈ (sent.drop accepted.length).getLast?, x.1 = true)) := by
  have hk₀ : conn.Keeps [] ((MessageBuffer.new maxMsgNum).reset conn.lastSendSerial) :=
    ⟨hserial, hbuf, rfl, rfl, nil_suffix⟩
  obtain ⟨c, o, b, hall', hk, hlast, hsub, -⟩ := hk₀.performAll hops
  obtain ⟨rfl, rfl⟩ := Prod.mk.inj (Option.some.inj (hall.symm.trans hall'))
  rw [nil_append] at hk
  have hmsg : ∀ x ∈ numbered conn.lastSendSerial ops,
      ∃ call s, SenderOp.send call ∈ ops ∧ x.2 = call.info s := fun x hx => mem_numbered hx
  have hsent : ∀ x ∈ numbered conn.lastSendSerial ops, 0 < x.2.type := fun x hx => by
    obtain ⟨call, s, hc, heq⟩ := hmsg x hx
    exact heq ▸ hops call hc
  have htake : ∀ m ∈ kept (numbered conn.lastSendSerial ops), recv.WouldAccept mtime enc m := by
    intro m hm
    obtain ⟨call, s, hc, rfl : m = call.info s⟩ := hmsg _ (mem_kept hm)
    exact hbody call (.inl hc) s
  obtain ⟨stream, hstream, hiff⟩ := hk.reconnect_accepted_iff (fun m hm => hsent _ (mem_kept hm))
    ⟨hrecv.enableSerial, hrecv.decodeError, rfl⟩ hfur htake
    (fun call hc s => hbody call (.inr hc) s)
  refine ⟨b, stream, hk.msgBuffer, hk.broken, hstream, hiff, ?_⟩
  rintro sent rfl hw hstill
  have hlen : accepted.length ≤ (numbered conn.lastSendSerial ops).length := by
    simpa using (hpre.sublist.trans hsub).length_le
  have hR : recv.recvSerial = conn.lastSendSerial + UInt32.ofNat accepted.length := by
    rw [hrecv.recvSerial, recvSerial_of_run_accept hrecv₀.enableSerial
      hrecv₀.decodeError (fun info hi => ?_) hacc, hrecv₀.recvSerial]
    obtain ⟨x, hx, rfl⟩ := mem_map.1 (hsub.subset (hpre.subset hi))
    exact hsent x hx
  have hcons := consecutive_numbered conn.lastSendSerial ops
  have hlink := hcons.dropWhile_link hw hlen hk.suffix (hR ▸ hstill)
  have hlast' : conn'.lastSendSerial = conn.lastSendSerial + UInt32.ofNat accepted.length +
      UInt32.ofNat ((numbered conn.lastSendSerial ops).drop accepted.length).length := by
    rw [hlast, UInt32.add_assoc, ← UInt32.ofNat_add, length_drop, Nat.add_sub_cancel' hlen]
  have hw' : (conn.lastSendSerial + UInt32.ofNat accepted.length).toNat +
      ((numbered conn.lastSendSerial ops).drop accepted.length).length < 2 ^ 32 := by
    rw [UInt32.toNat_add, UInt32.toNat_ofNat_of_lt' (by rw [UInt32.size]; omega),
      Nat.mod_eq_of_lt (by omega), length_drop]
    omega
  rw [hiff, hR, hlink, hlast']
  exact (hcons.drop hlen).resendable_iff hw' _

def freshSender : Connection Unit :=
  { buildConnection openTerminal none with msgBuffer := some ((MessageBuffer.new 0).reset 0) }

def freshReceiver : Connection Unit := buildConnection openTerminal none

/-- `send` of an empty message of type 1 on an open connection. -/
def callOfType1 (needBuffer : Bool) : SendCall := ⟨true, true, 1, false, needBuffer, 0, .raw none⟩

/-- What the receiver, at the serial `R` of its last message, makes of the stream
after a reconnect: the types and serials in it, and whether it takes them all. -/
def afterReconnect (ops : List SenderOp) (R : UInt32) (further : List SendCall) :
    Option (List (Int32 × UInt32) × Bool) :=
  (freshSender.performAll ops).bind fun (conn, _) =>
    (conn.reconnect R further).map fun stream =>
      (stream.map fun info => (info.type, info.serial),
        (run (Connection.accept 0 fun _ => freshSender) { freshReceiver with recvSerial := R }
          stream).isSome)

/-- **A gap before the first or after the last kept message is not announced.**  The same gap
between two kept messages is. -/
theorem unannounced_gap_refused :
    afterReconnect [.send (callOfType1 false), .send (callOfType1 true)] 0 [] =
        some ([(1, 2)], false) ∧
      afterReconnect [.send (callOfType1 false)] 0 [callOfType1 true] = some ([(1, 2)], false) ∧
      afterReconnect [.send (callOfType1 true), .send (callOfType1 false),
        .send (callOfType1 true)] 0 [] = some ([(1, 1), (-116, 2), (1, 3)], true) ∧
      ((freshSender.performAll [.send (callOfType1 false), .send (callOfType1 true)]).map
        fun (_, out) => (run (Connection.accept 0 fun _ => freshSender) freshReceiver out).isSome) =
          some true := by
  decide +kernel

theorem freshReceiver_wouldAccept (needBuffer : Bool) (serial : UInt32) (recv : Connection Unit)
    (hterm : recv.terminal = openTerminal) (he : recv.decodeError = false) :
    recv.WouldAccept 0 (fun _ => freshSender) ((callOfType1 needBuffer).info serial) := by
  have hpos : ¬(1 : Int32) < 0 := by decide
  have hflag : (0 : UInt16) &&& messageFlagCrypt = 0 := by decide
  simp [WouldAccept, accept, decode, SendCall.info, callOfType1, hpos,
    hterm, openTerminal, decodeBody, messageHead, hflag, decodeRegistered, he]

/-- `resend_accepted_iff` at an unkept message that was accepted, a kept one that
was lost, and a further one: the receiver takes the stream. -/
theorem resend_accepted_after_one :
    ∃ conn' out stream,
      freshSender.performAll [.send (callOfType1 false), .send (callOfType1 true)] =
        some (conn', out) ∧
      conn'.reconnect 1 [callOfType1 false] = some stream ∧
      (run (Connection.accept 0 fun _ => freshSender) { freshReceiver with recvSerial := 1 }
        stream).isSome := by
  let ops : List SenderOp := [.send (callOfType1 false), .send (callOfType1 true)]
  have hops : PositiveTypes ops := fun call hc => by
    have hc : call = callOfType1 false ∨ call = callOfType1 true := by simpa [ops] using hc
    rcases hc with rfl | rfl <;> decide
  have hperform : (freshSender.performAll ops).map (fun r => (r.2, r.1.msgBuffer)) =
      some ([(callOfType1 false).info 1, (callOfType1 true).info 2],
        some ⟨[(callOfType1 true).info 2], [2], false, 0, 2, 0⟩) := by decide +kernel
  have htaken : (run (accept 0 fun _ => freshSender) freshReceiver
      [(callOfType1 false).info 1]).map (·.recvSerial) = some 1 := by decide +kernel
  obtain ⟨⟨conn', out⟩, hall, hres⟩ := Option.map_eq_some_iff.1 hperform
  obtain ⟨rfl, hbuf⟩ := Prod.mk.inj hres
  obtain ⟨recv₁, hacc, hrecv₁⟩ := Option.map_eq_some_iff.1 htaken
  have hbody : ∀ call, SenderOp.send call ∈ ops ∨ call ∈ [callOfType1 false] → ∀ serial,
      { freshReceiver with recvSerial := 1 }.WouldAccept 0 (fun _ => freshSender)
        (call.info serial) := fun call hc serial => by
    have hc : ∃ needBuffer, call = callOfType1 needBuffer := by
      have hcases : call = callOfType1 false ∨ call = callOfType1 true ∨
          call = callOfType1 false := by
        simpa [ops, or_assoc] using hc
      rcases hcases with h | h | h
      exacts [⟨_, h⟩, ⟨_, h⟩, ⟨_, h⟩]
    obtain ⟨needBuffer, rfl⟩ := hc
    exact freshReceiver_wouldAccept needBuffer serial _ rfl rfl
  have hrecv₀ : freshReceiver.Receives freshSender.lastSendSerial := ⟨rfl, rfl, rfl⟩
  have hfur : OpenCalls [callOfType1 false] := by simp [OpenCalls, callOfType1]
  obtain ⟨b, stream, hb, -, hstream, -, hiff⟩ := resend_accepted_iff rfl rfl hops hall hrecv₀
    (prefix_append [_] [_]) hacc ⟨rfl, rfl, hrecv₁.symm⟩ hfur hbody
  obtain rfl := Option.some.inj (hbuf.symm.trans hb)
  refine ⟨conn', _, stream, hall, hstream, (hiff _ rfl (by decide) ?_).2 ?_⟩
  · decide
  · decide

end Corpc.Message
