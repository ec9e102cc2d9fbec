/-
# What is sent again after a reconnect

A message that was sent with `needBuffer` leaves the buffer when a serial from its own on is
acknowledged, or when as many newer ones come as the buffer takes (`Recalls`).
-/

import Corpc.Message.BufferSteps
import Corpc.Message.Resend

namespace Corpc.Message

open Corpc.Basis Wire List Connection

variable {μ : Type}

def acknowledged : List SenderOp → List UInt32
  | [] => []
  | .send _ :: ops => acknowledged ops
  | .scrap serial :: ops => serial :: acknowledged ops

/-- Every acknowledged serial has been drawn, from `serial` on. -/
def acksDrawn (serial : UInt32) : List SenderOp → Bool
  | [] => true
  | .send call :: ops =>
    acksDrawn (if call.isOpen₁ || call.needBuffer then serial + 1 else serial) ops
  | .scrap acked :: ops => decide (acked ≤ serial) && acksDrawn serial ops

def newer (sent : List SendMessageInfo) (m : SendMessageInfo) : List SendMessageInfo :=
  sent.filter fun m' => m.serial < m'.serial

/-- A kept message has not been acknowledged, and fewer newer ones were kept than the buffer
takes. -/
def survives (maxMsgNum : UInt32) (acks : List UInt32) (sent : List SendMessageInfo)
    (m : SendMessageInfo) : Bool :=
  (acks.all fun a => a < m.serial) &&
    (maxMsgNum == 0 || decide ((newer sent m).length < maxMsgNum.toNat))

def gap (m m' : SendMessageInfo) : List SendMessageInfo :=
  if 1 < m'.serial.toNat - m.serial.toNat then [jumpSerialInfo (m'.serial - 1)] else []

def withJumps (msgs : List SendMessageInfo) : List SendMessageInfo :=
  msgs.head?.toList ++ (msgs.zip msgs.tail).flatMap fun p => gap p.1 p.2 ++ [p.2]

/-- The buffer of a connection that has kept `sent` and has seen the acknowledgements `acks`. -/
structure Connection.Recalls (conn : Connection μ) (b : MessageBuffer)
    (sent : List SendMessageInfo) (acks : List UInt32) : Prop where
  keeps : conn.Keeps sent b
  inStep : b.InStep conn.lastSendSerial
  increasing : sent.Pairwise fun m m' => m.serial < m'.serial
  bounded : ∀ m ∈ sent, m.serial ≤ conn.lastSendSerial
  acks_le : ∀ a ∈ acks, a ≤ conn.lastSendSerial
  above : ∀ m ∈ b.bufMsglink, ∀ a ∈ acks, a < m.serial
  lost : ∀ m ∈ sent, m ∉ b.bufMsglink → (∃ a ∈ acks, m.serial ≤ a) ∨
    (0 < b.maxMsgNum ∧ b.maxMsgNum.toNat ≤ (newer sent m).length)

section Recalls

variable {conn : Connection μ} {b : MessageBuffer} {sent : List SendMessageInfo}
  {acks : List UInt32} {serial : UInt32}

variable {m : SendMessageInfo}

theorem newer_eq {pre post : List SendMessageInfo}
    (h : (pre ++ m :: post).Pairwise fun m m' => m.serial < m'.serial) :
    newer (pre ++ m :: post) m = post := by
  obtain ⟨-, hpost, hlt⟩ := pairwise_append.1 h
  have hpre : ∀ x ∈ pre, ¬m.serial < x.serial := fun x hx hmx =>
    UInt32.lt_asymm hmx (hlt x hx m List.mem_cons_self)
  have hbehind : ∀ x ∈ post, m.serial < x.serial := (List.pairwise_cons.1 hpost).1
  have hnone : pre.filter (fun m' => m.serial < m'.serial) = [] :=
    filter_eq_nil_iff.2 fun x hx => by simpa using hpre x hx
  have hall : post.filter (fun m' => m.serial < m'.serial) = post :=
    filter_eq_self.2 fun x hx => by simpa using hbehind x hx
  rw [newer, filter_append, hnone, nil_append, filter_cons_of_neg (by simp), hall]

theorem length_newer_append (sent more : List SendMessageInfo) (m : SendMessageInfo) :
    (newer sent m).length ≤ (newer (sent ++ more) m).length := by
  rw [newer, newer, filter_append, length_append]
  exact Nat.le_add_right ..

theorem MessageBuffer.InStep.lost_insert (hin : b.InStep serial)
    (hm : m.serial = serial + 1) (hsuf : b.bufMsglink <:+ sent)
    (hsent : (sent ++ [m]).Pairwise fun m m' => m.serial < m'.serial)
    (hlost : ∀ x ∈ sent, x ∉ b.bufMsglink → (∃ a ∈ acks, x.serial ≤ a) ∨
      (0 < b.maxMsgNum ∧ b.maxMsgNum.toNat ≤ (newer sent x).length)) :
    ∀ x ∈ sent ++ [m], x ∉ (b.insertMessage m).2.bufMsglink → (∃ a ∈ acks, x.serial ≤ a) ∨
      (0 < b.maxMsgNum ∧ b.maxMsgNum.toNat ≤ (newer (sent ++ [m]) x).length) := by
  intro x hx hgone
  rw [hin.insertMessage_eq hm] at hgone
  dsimp only at hgone
  have hold : x ∈ sent := by
    refine (mem_append.1 hx).resolve_right fun hnew => hgone ?_
    exact mem_append_right _ hnew
  have hout : x ∉ b.evict.bufMsglink := fun h => hgone (mem_append_left _ h)
  by_cases hlink : x ∈ b.bufMsglink
  · rcases hin.evict_cases with ⟨heq, -⟩ | ⟨first, rest, hfirst, hpos, hlen, heq⟩
    · exact absurd hlink (heq ▸ hout)
    · -- the message that was driven out has all others behind it
      obtain ⟨gone, hgone⟩ := hsuf
      rw [hfirst] at hlink hlen hgone
      rw [heq] at hout
      obtain rfl : x = first := (mem_cons.1 hlink).resolve_right hout
      subst hgone
      rw [append_assoc, cons_append] at hsent ⊢
      rw [newer_eq hsent, length_append]
      exact .inr ⟨hpos, Nat.le_of_eq hlen.symm⟩
  · rcases hlost x hold hlink with hack | ⟨hpos, hle⟩
    · exact .inl hack
    · exact .inr ⟨hpos, Nat.le_trans hle (length_newer_append ..)⟩

theorem mem_recordSend (hin : b.InStep serial) {call : SendCall}
    (h : m ∈ (recordSend call.needBuffer (call.info (serial + 1)) b).bufMsglink) :
    m ∈ b.bufMsglink ∨ m = call.info (serial + 1) := by
  unfold recordSend at h
  split_ifs at h
  · rw [hin.insertMessage_eq rfl] at h
    rcases mem_append.1 h with h | h
    · rcases b.evict_bufMsglink with he | he
      · exact .inl (he ▸ h)
      · exact .inl (mem_of_mem_tail (he ▸ h))
    · exact .inr (mem_singleton.1 h)
  · rw [show (call.info (serial + 1)).serial = serial + 1 from rfl, hin.jumpToSerial_eq] at h
    exact .inl h

theorem Connection.Recalls.number (h : conn.Recalls b sent acks) {call : SendCall}
    (ht : 0 < call.type) (hw : conn.lastSendSerial.toNat + 1 < 2 ^ 32) :
    ∃ b', (conn.number call).1.Recalls b'
        (sent ++ kept [(call.needBuffer, call.info (conn.lastSendSerial + 1))]) acks ∧
      (conn.number call).1.lastSendSerial = conn.lastSendSerial + 1 ∧
      b'.maxMsgNum = b.maxMsgNum := by
  obtain ⟨hkeeps, hin, hinc, hle, hacks, habove, hlost⟩ := h
  have hrec := recordSend_next (m := call.info (conn.lastSendSerial + 1)) call.needBuffer
    hkeeps.broken (by rw [hkeeps.lastSerial]; rfl) hkeeps.suffix
  have hmax := hin.maxMsgNum_recordSend call
  have hlt : ∀ m ∈ sent, m.serial < conn.lastSendSerial + 1 := fun m hm => lt_next hw (hle m hm)
  have hacks' : ∀ a ∈ acks, a < conn.lastSendSerial + 1 := fun a ha => lt_next hw (hacks a ha)
  rw [Connection.number, if_pos ⟨ht, hkeeps.enableSerial⟩]
  refine ⟨recordSend call.needBuffer (call.info (conn.lastSendSerial + 1)) b,
    ⟨⟨hkeeps.enableSerial, by rw [hkeeps.msgBuffer]; rfl, hrec.1, hrec.2.1, hrec.2.2⟩,
      hin.recordSend hw call, ?_, ?_, fun a ha => UInt32.le_of_lt (hacks' a ha), ?_, ?_⟩,
    rfl, hmax⟩
  · refine List.pairwise_append.2 ⟨hinc, ?_, fun m hm m' hm' => ?_⟩
    · cases call.needBuffer
      · exact .nil
      · exact pairwise_singleton ..
    · obtain rfl : m' = call.info (conn.lastSendSerial + 1) := by
        simpa using congrArg Prod.snd (mem_singleton.1 (mem_kept hm'))
      exact hlt m hm
  · intro m hm
    rcases List.mem_append.1 hm with hm | hm
    · exact UInt32.le_of_lt (hlt m hm)
    · obtain rfl : m = call.info (conn.lastSendSerial + 1) := by
        simpa using congrArg Prod.snd (List.mem_singleton.1 (mem_kept hm))
      exact UInt32.le_refl _
  · intro m hm a ha
    rcases mem_recordSend hin hm with hm | rfl
    · exact habove m hm a ha
    · exact hacks' a ha
  · rw [hmax]
    cases hkeep : call.needBuffer with
    | true =>
      simp only [recordSend, if_true]
      refine hin.lost_insert rfl hkeeps.suffix ?_ hlost
      refine pairwise_append.2 ⟨hinc, pairwise_singleton .., fun m hm m' hm' => ?_⟩
      rw [mem_singleton.1 hm']
      exact hlt m hm
    | false =>
      intro m hm hgone
      simp only [kept_cons, Bool.false_eq_true, if_false, kept_nil, append_nil] at hm ⊢
      refine hlost m hm ?_
      simpa [recordSend, SendCall.info, hin.jumpToSerial_eq] using hgone

theorem Connection.Recalls.scrapMessages (h : conn.Recalls b sent acks) {acked : UInt32}
    (hacked : acked ≤ conn.lastSendSerial) :
    (conn.scrapMessages acked).Recalls (b.scrapMessages acked) sent (acked :: acks) := by
  obtain ⟨hkeeps, hin, hinc, hle, hacks, habove, hlost⟩ := h
  refine ⟨hkeeps.scrapMessages acked, hin.scrapMessages acked, hinc, hle, ?_, ?_, ?_⟩
  · intro a ha
    rcases mem_cons.1 ha with rfl | ha
    · exact hacked
    · exact hacks a ha
  · intro m hm a ha
    obtain ⟨hold, hlt⟩ := hin.mem_scrapMessages.1 hm
    rcases mem_cons.1 ha with rfl | ha
    · exact hlt
    · exact habove m hold a ha
  · intro m hm hgone
    rw [hin.mem_scrapMessages, not_and] at hgone
    by_cases hold : m ∈ b.bufMsglink
    · exact .inl ⟨acked, List.mem_cons_self, UInt32.not_lt.1 (hgone hold)⟩
    · rcases hlost m hm hold with ⟨a, ha, hma⟩ | hmore
      · exact .inl ⟨a, mem_cons_of_mem _ ha, hma⟩
      · exact .inr hmore

theorem Connection.Recalls.performAll {ops : List SenderOp} (h : conn.Recalls b sent acks)
    (hpos : PositiveTypes ops)
    (hw : conn.lastSendSerial.toNat + (numbered conn.lastSendSerial ops).length < 2 ^ 32)
    (hacks : acksDrawn conn.lastSendSerial ops = true) :
    ∃ conn' out b', conn.performAll ops = some (conn', out) ∧
      conn'.Recalls b' (sent ++ kept (numbered conn.lastSendSerial ops))
        ((acknowledged ops).reverse ++ acks) ∧ b'.maxMsgNum = b.maxMsgNum := by
  induction ops generalizing conn b sent acks with
  | nil => exact ⟨conn, [], b, rfl, by simpa [numbered, acknowledged] using h, rfl⟩
  | cons op ops ih =>
    have hrest : PositiveTypes ops := fun call hc => hpos call (mem_cons_of_mem _ hc)
    cases op with
    | scrap acked =>
      obtain ⟨hack, hacks⟩ := Bool.and_eq_true_iff.1 hacks
      obtain ⟨c, out, b', hall, hc, hmax⟩ :=
        ih (h.scrapMessages (of_decide_eq_true hack)) hrest hw hacks
      refine ⟨c, out, b', ?_, ?_, hmax⟩
      · simp [performAll, perform, hall]
      · rw [acknowledged, reverse_cons, append_assoc]
        exact hc
    | send call =>
      have ht : 0 < call.type := hpos call mem_cons_self
      have hsend := h.keeps.send_eq ht
      by_cases hn : (call.isOpen₁ || call.needBuffer) = true
      · rw [if_pos hn] at hsend
        rw [numbered, if_pos hn, length_cons] at hw
        rw [acksDrawn, if_pos hn] at hacks
        have hone : (conn.lastSendSerial + 1).toNat = conn.lastSendSerial.toNat + 1 :=
          toNat_next (by omega)
        obtain ⟨b₁, h₁, hlast, hmax₁⟩ := h.number ht (by omega)
        rw [← hlast] at hw hacks hone
        obtain ⟨c, out, b', hall, hc, hmax⟩ := ih h₁ hrest (by omega) hacks
        refine ⟨c, (conn.number call).2.toList ++ out, b', ?_, ?_, hmax.trans hmax₁⟩
        · simp [performAll, perform, hsend, hall]
        · rw [hlast] at hc
          simpa [numbered, hn, acknowledged] using hc
      · rw [if_neg hn] at hsend
        rw [numbered, if_neg hn] at hw
        rw [acksDrawn, if_neg hn] at hacks
        obtain ⟨c, out, b', hall, hc, hmax⟩ := ih h hrest hw hacks
        refine ⟨c, out, b', ?_, ?_, hmax⟩
        · simp [performAll, perform, hsend, hall]
        · rw [numbered, if_neg hn, acknowledged]
          exact hc

/-- **What is in the buffer can be read off the history.** -/
theorem Connection.Recalls.bufMsglink_eq (h : conn.Recalls b sent acks) :
    b.bufMsglink = sent.filter (survives b.maxMsgNum acks sent) := by
  obtain ⟨gone, hgone⟩ := h.keeps.suffix
  have hinc := h.increasing
  have hgone' : gone.filter (survives b.maxMsgNum acks sent) = [] := by
    refine filter_eq_nil_iff.2 fun m hm hsurvives => ?_
    obtain ⟨hacks, hroom⟩ := Bool.and_eq_true_iff.1 hsurvives
    have hnot : m ∉ b.bufMsglink := by
      intro hmem
      rw [← hgone] at hinc
      exact UInt32.lt_irrefl _ ((List.pairwise_append.1 hinc).2.2 m hm m hmem)
    rcases h.lost m (hgone ▸ List.mem_append_left _ hm) hnot with ⟨a, ha, hle⟩ | ⟨hpos, hle⟩
    · exact UInt32.not_lt.2 hle (by simpa using List.all_eq_true.1 hacks a ha)
    · rcases Bool.or_eq_true_iff.1 hroom with hzero | hlt
      · rw [eq_of_beq hzero] at hpos
        exact UInt32.lt_irrefl _ hpos
      · exact Nat.not_lt.2 hle (of_decide_eq_true hlt)
  have hlink : b.bufMsglink.filter (survives b.maxMsgNum acks sent) = b.bufMsglink := by
    refine filter_eq_self.2 fun m hm => Bool.and_eq_true_iff.2 ⟨?_, ?_⟩
    · exact all_eq_true.2 fun a ha => by simpa using h.above m hm a ha
    · by_cases hzero : b.maxMsgNum = 0
      · simp [hzero]
      · have hpos : 0 < b.maxMsgNum := by
          rw [UInt32.lt_iff_toNat_lt]
          exact Nat.pos_of_ne_zero fun h0 => hzero (UInt32.toNat_inj.1 h0)
        obtain ⟨pre, post, hsplit⟩ := List.append_of_mem hm
        have hsize := h.inStep.size hpos
        rw [← hgone, hsplit, ← append_assoc] at hinc
        rw [← hgone, hsplit, ← append_assoc, newer_eq hinc]
        rw [hsplit, length_append, length_cons] at hsize
        simp only [Bool.or_eq_true, decide_eq_true_eq]
        exact .inr (by omega)
  have hall := congrArg (List.filter (survives b.maxMsgNum acks sent)) hgone
  rwa [filter_append, hgone', hlink, nil_append] at hall

end Recalls

theorem resendLoop_eq {m : SendMessageInfo} {rest : List SendMessageInfo} (i : ℕ)
    (hpos : 0 < m.serial) (hinc : (m :: rest).Pairwise fun m m' => m.serial < m'.serial) :
    resendLoop (fun _ => true) i m.serial rest =
      ((m :: rest).zip rest).flatMap fun p => gap p.1 p.2 ++ [p.2] := by
  induction rest generalizing m i with
  | nil => rfl
  | cons m' rest ih =>
    obtain ⟨hm, hrest⟩ := pairwise_cons.1 hinc
    have hlt : m.serial < m'.serial := hm m' mem_cons_self
    have hgap : (0 < m.serial ∧ m'.serial ≠ m.serial + 1) ↔
        1 < m'.serial.toNat - m.serial.toNat := by
      have hlt' := UInt32.lt_iff_toNat_lt.1 hlt
      have hone : (m.serial + 1).toNat = m.serial.toNat + 1 :=
        toNat_next (Nat.lt_of_le_of_lt hlt' m'.serial.toNat_lt)
      rw [and_iff_right hpos, Ne, ← UInt32.toNat_inj, hone]
      omega
    have htail := ih (i + 1) (UInt32.lt_trans hpos hlt) hrest
    simp only [resendLoop, if_true, hgap, List.zip_cons_cons, List.flatMap_cons, gap]
    rw [htail, append_assoc, singleton_append]
    rfl

theorem Connection.resend_eq {conn : Connection μ} {b : MessageBuffer}
    (hb : conn.msgBuffer = some b) (hpos : ∀ m ∈ b.bufMsglink, 0 < m.serial)
    (hinc : b.bufMsglink.Pairwise fun m m' => m.serial < m'.serial) :
    conn.resend (fun _ => true) = withJumps b.bufMsglink := by
  rw [resend, hb]
  dsimp only
  cases hlink : b.bufMsglink with
  | nil => rfl
  | cons m rest =>
    rw [hlink] at hpos hinc
    have hrest := resendLoop_eq 1 (hpos m mem_cons_self) hinc
    have hzero : ¬(0 < (0 : UInt32) ∧ m.serial ≠ 0 + 1) := fun h => UInt32.lt_irrefl _ h.1
    rw [resendLoop, if_pos rfl, if_neg hzero, List.nil_append, hrest]
    rfl

theorem filter_gap (m m' : SendMessageInfo) : (gap m m').filter (fun x => 0 < x.type) = [] := by
  unfold gap
  split_ifs
  · exact filter_eq_nil_iff.2 fun x hx => by
      rw [mem_singleton.1 hx]
      exact of_decide_eq_true rfl
  · rfl

theorem filter_withJumps {msgs : List SendMessageInfo} (h : ∀ m ∈ msgs, 0 < m.type) :
    (withJumps msgs).filter (fun m => 0 < m.type) = msgs := by
  have hzip : ∀ (m : SendMessageInfo) (rest : List SendMessageInfo), (∀ x ∈ rest, 0 < x.type) →
      (((m :: rest).zip rest).flatMap fun p => gap p.1 p.2 ++ [p.2]).filter
        (fun m => 0 < m.type) = rest := by
    intro m rest hrest
    induction rest generalizing m with
    | nil => rfl
    | cons m' rest ih =>
      have hm' : 0 < m'.type := hrest m' mem_cons_self
      rw [zip_cons_cons, flatMap_cons, filter_append, filter_append,
        filter_gap, ih m' fun x hx => hrest x (mem_cons_of_mem _ hx)]
      simp [hm']
  cases msgs with
  | nil => rfl
  | cons m rest =>
    have hm : 0 < m.type := h m mem_cons_self
    have htail := hzip m rest fun x hx => h x (mem_cons_of_mem _ hx)
    simp only [withJumps, List.head?_cons, Option.toList_some, tail_cons, filter_append, htail]
    simp [hm]

/-- **No kept message is lost over a reconnect**: `resend` queues those that survive, in the order
of their serials, with one jump for each gap. -/
theorem resend_survivors (conn : Connection μ) (b : MessageBuffer)
    (hon : conn.terminal.enableSerial = true) (hb : conn.msgBuffer = some b)
    (hin : b.InStep conn.lastSendSerial)
    (hfirst : ∀ m ∈ b.bufMsglink, 0 < m.serial ∧ 0 < m.type) (ops : List SenderOp)
    (hpos : PositiveTypes ops)
    (hw : conn.lastSendSerial.toNat + (numbered conn.lastSendSerial ops).length < 2 ^ 32)
    (hacks : acksDrawn conn.lastSendSerial ops = true) :
    let sent := b.bufMsglink ++ kept (numbered conn.lastSendSerial ops)
    let survivors := sent.filter (survives b.maxMsgNum (acknowledged ops) sent)
    ∃ conn' out, conn.performAll ops = some (conn', out) ∧
      conn'.resend (fun _ => true) = withJumps survivors ∧
      (conn'.resend fun _ => true).filter (fun m => 0 < m.type) = survivors ∧
      survivors.Pairwise fun m m' => m.serial < m'.serial := by
  intro sent survivors
  have hstart : conn.Recalls b b.bufMsglink [] :=
    ⟨⟨hon, hb, hin.broken, hin.lastSerial, suffix_rfl⟩, hin, hin.increasing, hin.bounded,
      nofun, fun _ _ => nofun, fun m hm hgone => absurd hm hgone⟩
  obtain ⟨conn', out, b', hall, hrec, hmax⟩ := hstart.performAll hpos hw hacks
  have hlink : b'.bufMsglink = survivors := by
    rw [hrec.bufMsglink_eq, hmax]
    refine filter_congr fun m _ => ?_
    simp [survives, sent]
  have hsent : ∀ m ∈ sent, 0 < m.serial ∧ 0 < m.type := by
    intro m hm
    rcases mem_append.1 hm with hm | hm
    · exact hfirst m hm
    · have hbounds := ((consecutive_numbered conn.lastSendSerial ops).bounds hw (mem_kept hm)).1
      obtain ⟨call, serial, hcall, hinfo⟩ := mem_numbered (mem_kept hm)
      refine ⟨UInt32.lt_iff_toNat_lt.2 (Nat.lt_of_le_of_lt (Nat.zero_le _) hbounds), ?_⟩
      rw [show m = call.info serial from hinfo]
      exact hpos call hcall
  have hsub : ∀ m ∈ survivors, 0 < m.serial ∧ 0 < m.type := fun m hm =>
    hsent m (mem_of_mem_filter hm)
  have hresend : conn'.resend (fun _ => true) = withJumps survivors := by
    rw [← hlink] at hsub ⊢
    exact resend_eq hrec.keeps.msgBuffer (fun m hm => (hsub m hm).1)
      hrec.inStep.increasing
  refine ⟨conn', out, hall, hresend, ?_, hlink ▸ hrec.inStep.increasing⟩
  rw [hresend, filter_withJumps fun m hm => (hsub m hm).2]

/-- A buffer for two messages, one message that is not kept, one kept while the connection is
closed, and an acknowledgement of the first. -/
theorem resend_survivors_limit :
    let conn : Connection Unit :=
      { freshSender with msgBuffer := some ((MessageBuffer.new 2).reset 0) }
    ∃ conn' out, conn.performAll [.send (callOfType1 true), .send (callOfType1 true), .scrap 1,
        .send (callOfType1 true), .send (callOfType1 false),
        .send { callOfType1 true with isOpen₁ := false, isOpen₂ := false }] = some (conn', out) ∧
      (conn'.resend fun _ => true).map (fun m => (m.type, m.serial)) =
        [(1, 3), (msgTypeJumpSerial, 4), (1, 5)] := by
  intro conn
  obtain ⟨conn', out, hall, hresend, -⟩ := resend_survivors conn _ rfl rfl (inStep_reset _ 0)
    (nofun) [.send (callOfType1 true), .send (callOfType1 true), .scrap 1,
        .send (callOfType1 true), .send (callOfType1 false),
        .send { callOfType1 true with isOpen₁ := false, isOpen₂ := false }]
    (by
      intro call hcall
      have hcases : call = callOfType1 true ∨ call = callOfType1 false ∨
          call = { callOfType1 true with isOpen₁ := false, isOpen₂ := false } := by
        simpa [or_comm, or_left_comm, or_assoc] using hcall
      rcases hcases with rfl | rfl | rfl <;> decide)
    (by decide) (by decide)
  refine ⟨conn', out, hall, ?_⟩
  rw [hresend]
  decide +kernel

end Corpc.Message
