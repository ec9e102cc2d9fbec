/-
# What the Unity client makes of a stream

A C++ peer takes the whole stream of a KCP server (`Kcp.Stream`).  The Unity client (`Kcp.Client`)
takes a package for a row of whole messages, and no jump frames.
-/

import Corpc.Kcp.Stream

namespace Corpc.Kcp

open Corpc.Basis Wire Message Pipeline List Option Nat UnityClient Received

variable {δ μ : Type} {pb : Protobuf δ μ} {client : UnityClient δ}

theorem toInt_eq (l : Int32) : l.toInt =
    if l.toUInt32.toNat < 2 ^ 31 then (l.toUInt32.toNat : ℤ) else l.toUInt32.toNat - 2 ^ 32 := by
  have h : l.toBitVec.toNat = l.toUInt32.toNat := rfl
  rw [← Int32.toInt_toBitVec, BitVec.toInt_eq_toNat_cond, h]
  split_ifs <;> omega

theorem checkSerial_next (hs : client.enableSerial = true) {last : Int32} {serial : UInt32}
    (h : serial = last.toUInt32 + 1) :
    client.checkSerial last serial = if serial.toNat < 2 ^ 31 then some (last + 1) else none := by
  have hnext : (last + 1).toUInt32 = serial := h.symm
  have hint := toInt_eq (last + 1)
  have hzero : serial = 0 ↔ serial.toNat = 0 := by
    rw [← UInt32.toNat_inj]
    rfl
  have hlt : serial.toNat < 2 ^ 32 := serial.toNat_lt
  rw [hnext] at hint
  have hfails : (serial ≠ 0 ∧ (serial.toNat : ℤ) ≠ (last + 1).toInt) ↔ ¬serial.toNat < 2 ^ 31 := by
    rw [hint, ne_eq, hzero]
    split_ifs <;> omega
  rw [checkSerial, if_pos hs]
  by_cases hsmall : serial.toNat < 2 ^ 31
  · rw [if_neg fun h => hfails.1 h hsmall, if_pos hsmall]
  · rw [if_pos (hfails.2 hsmall), if_neg hsmall]

theorem length_of_readBody {head rest body : List UInt8}
    (h : client.readBody pb head rest = some (some body)) : body.length = field head 0 4 := by
  have hdes : ∀ type plain, client.deserialize pb type plain = some (some body) → body = plain := by
    intro type plain hplain
    unfold deserialize at hplain
    split at hplain
    · exact (some.inj (some.inj (ite_none_right_eq_some.1 hplain).2)).symm
    · cases hplain
  unfold readBody at h
  dsimp only at h
  split_ifs at h with hpos hshort hcrc hcrypt
  · split at h
    · cases h
    · rw [hdes _ _ h, Crypter.length_decrypt, length_take]
      omega
  · rw [hdes _ _ h, length_take]
    omega
  · cases h
    simp only [length_nil]
    omega

/-- How much of the package a message took, if nothing of its body is lost. -/
def Received.size (m : Received) : ℕ := messageHeadSize + (m.body.getD []).length

/-- What one turn of the loop takes: at least a head, no body for a type that is not positive,
and, if the body is not lost, the head and the body. -/
theorem readMessage_spec {last l : Int32} {rest : List UInt8} {m : Received} {k : ℕ}
    (h : client.readMessage pb last rest = some (l, m, k)) :
    messageHeadSize ≤ k ∧ (0 < m.type ∨ m.body = some []) ∧
      (m.body.isSome = true → k = m.size) := by
  unfold readMessage at h
  dsimp only at h
  split_ifs at h with hshort hpos
  · obtain ⟨l', -, h⟩ := bind_eq_some_iff.1 h
    obtain ⟨body, hbody, h⟩ := map_eq_some_iff.1 h
    cases h
    refine ⟨Nat.le_add_right .., .inl hpos, fun hsome => ?_⟩
    obtain ⟨bytes, rfl⟩ := Option.isSome_iff_exists.1 hsome
    rw [Received.size, getD_some, length_of_readBody hbody]
  · cases h
    exact ⟨le_refl _, .inr rfl, fun _ => rfl⟩

section Frames

variable {deliveries : List (List UInt8 × List UInt8)} {enableSerial : Bool} {r : UInt32}
  {s s' : RecvState}

variable {key : Option XorKey} {server peer : MessageTerminal μ} {x : Connection μ × Item μ}
  {items : List (Connection μ × Item μ)}

/-- What `RecvMsgLoop` checks of an item. -/
def Item.check (client : UnityClient δ) (last : Int32) : Item μ → Option Int32
  | .message info _ =>
    if 0 < info.type then client.checkSerial last info.serial else some last
  | .heartbeat => some last
  | .jump _ => some last

/-- What `RecvMsgLoop` queues for the body of a message. -/
def UnityClient.protoData (client : UnityClient δ) (info : SendMessageInfo) :
    Option (List UInt8) :=
  if 0 < info.type ∧ info.msg.data ≠ [] then
    (client.registerTable info.type).map fun _ => info.msg.data
  else some []

/-- What `RecvMsgLoop` queues for an item. -/
def Item.enqueued (client : UnityClient δ) (serial : UInt32) (item : Item μ) : Received :=
  ⟨item.info.type, item.info.tag, client.protoData item.info, serial⟩

/-- `RecvMsgLoop` goes on behind the frame of the item. -/
def Item.Spans (item : Item μ) : Prop := 0 < item.info.type ∨ item.info.msg.data = []

theorem readBody_frame (h : Sent pb key server peer client x) (hp : Peers key server peer client)
    {info : SendMessageInfo} {content : TaskMsg μ} (hx : x.2 = .message info content)
    (hpos : 0 < info.type) (rest : List UInt8) :
    client.readBody pb (messageHead x.1 info) (encodeBody x.1 info ++ rest) =
      some (client.protoData info) := by
  have hm := h.message info content hx
  have hsize : field (messageHead x.1 info) 0 4 = info.msg.data.length := by
    have := h.readSize
    rwa [hx] at this
  have hbody : (encodeBody x.1 info).length = info.msg.data.length := by
    rw [length_encodeBody, Payload.length_data]
  have htake : (encodeBody x.1 info ++ rest).take info.msg.data.length = encodeBody x.1 info :=
    take_left' hbody
  have hsum : ¬(client.enableRecvCRC = true ∧
      headCrc (messageHead x.1 info) ≠ checkSum (encodeBody x.1 info) 0xFFFF) := by
    rintro ⟨hr, hne⟩
    exact hne (by simp [messageHead, h.terminal, hp.clientCRC hr])
  have htype : headType (messageHead x.1 info) = info.type := by simp [messageHead]
  have hdes : 0 < info.msg.data.length →
      client.deserialize pb info.type info.msg.data = some (client.protoData info) := by
    intro hlen
    rw [protoData, if_pos ⟨hpos, ne_nil_of_length_pos hlen⟩]
    unfold deserialize
    cases hd : client.registerTable info.type with
    | some d =>
      dsimp only
      rw [if_pos (hm.parses d hd)]
      rfl
    | none => rfl
  unfold readBody
  dsimp only
  rw [hsize, htake, htype]
  split_ifs with hlen hshort hcrypt
  · rw [length_append] at hshort
    omega
  · rcases hneed : info.needCrypt with _ | _
    · simp [messageHead, hneed] at hcrypt
    · obtain ⟨k, hk⟩ := isSome_iff_exists.1 (hm.crypt hneed)
      have hdec : (simpleXORCrypter k).decrypt (encodeBody x.1 info) = info.msg.data := by
        simp [encodeBody, Connection.encrypt, hneed, h.crypter, hk, decrypt_encrypt]
      rw [hp.clientCrypter, hk, map_some]
      dsimp only
      rw [hdec, hdes hlen]
  · rcases hneed : info.needCrypt with _ | _
    · have hsame : encodeBody x.1 info = info.msg.data := by
        simp [encodeBody, Connection.encrypt, hneed]
      rw [hsame, hdes hlen]
    · simp [messageHead, hneed, messageFlagCrypt] at hcrypt
  · have hnil : info.msg.data = [] := eq_nil_of_length_eq_zero (by omega)
    rw [protoData, if_neg fun h => h.2 hnil]

/-- **One turn of the loop at a whole frame.** -/
theorem readMessage_frame (h : Sent pb key server peer client x)
    (hp : Peers key server peer client) (hspans : x.2.Spans) (last : Int32) (rest : List UInt8) :
    client.readMessage pb last (frameBytes x ++ rest) = (x.2.check client last).map fun l =>
        (l, x.2.enqueued client l.toUInt32, (frameBytes x).length) := by
  have hhead : (messageHead x.1 x.2.info).length = messageHeadSize := length_messageHead ..
  have hframe : frameBytes x ++ rest =
      messageHead x.1 x.2.info ++ (encodeBody x.1 x.2.info ++ rest) := by
    rw [frameBytes, append_assoc]
  have hlong : ¬(frameBytes x ++ rest).length < messageHeadSize := by
    rw [hframe, length_append]
    omega
  have htake : (frameBytes x ++ rest).take messageHeadSize = messageHead x.1 x.2.info := by
    rw [hframe, take_left' hhead]
  have hdrop : (frameBytes x ++ rest).drop messageHeadSize = encodeBody x.1 x.2.info ++ rest := by
    rw [hframe, drop_left' hhead]
  have htype : headType (messageHead x.1 x.2.info) = x.2.info.type := by simp [messageHead]
  have htag : headTag (messageHead x.1 x.2.info) = x.2.info.tag := by simp [messageHead]
  rw [readMessage, if_neg hlong, htake, hdrop]
  dsimp only
  rw [h.readSize, htype, htag, length_frameBytes]
  rcases hx : x.2 with ⟨info, content⟩ | _ | serial
  · have hserial : headSerial (messageHead x.1 info) = info.serial := by simp [messageHead]
    rw [hx] at hspans
    by_cases hpos : 0 < info.type
    · have hitem : 0 < (Item.message info content).info.type := hpos
      rw [if_pos hitem]
      simp only [Item.info, Item.check, Item.enqueued]
      rw [readBody_frame h hp hx hpos, hserial, if_pos hpos]
      cases client.checkSerial last info.serial <;> rfl
    · have hitem : ¬0 < (Item.message info content).info.type := hpos
      have hnil : info.msg.data = [] := hspans.resolve_left hpos
      rw [if_neg hitem]
      simp only [Item.info, Item.check, Item.enqueued]
      rw [if_neg hpos, UnityClient.protoData, if_neg fun h => hpos h.1, hnil]
      rfl
  · rfl
  · rfl

/-- The bytes that messages took of the packages, if nothing of them is lost. -/
def sizes (ms : List Received) : ℕ := (ms.map Received.size).sum

@[simp]
theorem sizes_append (ms ms' : List Received) : sizes (ms ++ ms') = sizes ms + sizes ms' := by
  simp [sizes]

theorem sizes_cons (m : Received) (ms : List Received) : sizes (m :: ms) = m.size + sizes ms := by
  simp [sizes]

theorem eq_nil_of_sizes {ms : List Received} (h : sizes ms = 0) : ms = [] := by
  cases ms with
  | nil => rfl
  | cons m ms =>
    rw [sizes_cons, Received.size, messageHeadSize] at h
    omega

theorem sizes_trace (enableSerial : Bool) (r : UInt32) (items : List (Connection μ × Item μ)) :
    sizes (trace enableSerial r items) = (stream items).length := by
  induction items generalizing r with
  | nil => rfl
  | cons x items ih =>
    rw [trace, sizes_cons, ih, stream_cons, length_append, length_frameBytes]
    rfl

theorem isSome_of_mem_trace {m : Received}
    (h : m ∈ trace enableSerial r items) : m.body.isSome = true := by
  induction items generalizing r with
  | nil => cases h
  | cons x items ih =>
    rcases mem_cons.1 h with rfl | h
    · rfl
    · exact ih h

/-- What `RecvMsgLoop` has queued while it took `left` bytes of packages. -/
structure Queued (left : ℕ) (ms : List Received) : Prop where
  noBody : ∀ m ∈ ms, 0 < m.type ∨ m.body = some []
  long : (∀ m ∈ ms, m.body.isSome = true) → left ≤ sizes ms

theorem Queued.nil : Queued 0 [] := ⟨by simp, fun _ => le_refl _⟩

theorem Queued.cons {left k : ℕ} {m : Received} {ms : List Received}
    (hbody : 0 < m.type ∨ m.body = some []) (hk : m.body.isSome = true → k = m.size)
    (h : Queued (left - k) ms) : Queued left (m :: ms) := by
  refine ⟨forall_mem_cons.2 ⟨hbody, h.noBody⟩, fun hsome => ?_⟩
  rw [forall_mem_cons] at hsome
  have hleft := h.long hsome.2
  rw [sizes_cons, ← hk hsome.1]
  omega

theorem Queued.append {left left' : ℕ} {ms ms' : List Received} (h : Queued left ms)
    (h' : Queued left' ms') : Queued (left + left') (ms ++ ms') := by
  refine ⟨forall_mem_append.2 ⟨h.noBody, h'.noBody⟩, fun hsome => ?_⟩
  rw [forall_mem_append] at hsome
  rw [sizes_append]
  exact Nat.add_le_add (h.long hsome.1) (h'.long hsome.2)

theorem exists_of_readLoop {n left : ℕ} {rest : List UInt8} (hleft : 0 < left)
    (h : client.readLoop pb (n + 1) rest left s = .more s') :
    ∃ l m k, client.readMessage pb s.lastRecvSerial rest = some (l, m, k) ∧
      client.readLoop pb n (rest.drop k) (left - k) ⟨l, s.recvMsgQueue ++ [m]⟩ = .more s' := by
  rw [readLoop, if_neg (ne_of_gt hleft)] at h
  rcases hread : client.readMessage pb s.lastRecvSerial rest with _ | ⟨l, m, k⟩
  · rw [hread] at h
    cases h
  · rw [hread] at h
    exact ⟨l, m, k, rfl, h⟩

theorem queued_of_readLoop {n left : ℕ} {rest : List UInt8}
    (hn : left ≤ n) (h : client.readLoop pb n rest left s = .more s') :
    ∃ ms, s'.recvMsgQueue = s.recvMsgQueue ++ ms ∧ Queued left ms := by
  induction n generalizing rest left s with
  | zero =>
    obtain rfl : left = 0 := by omega
    cases h
    exact ⟨[], by simp, .nil⟩
  | succ n ih =>
    rcases Nat.eq_zero_or_pos left with rfl | hleft
    · cases h
      exact ⟨[], by simp, .nil⟩
    · obtain ⟨l, m, k, hread, hloop⟩ := exists_of_readLoop hleft h
      obtain ⟨hhead, hbody, hk⟩ := readMessage_spec hread
      unfold messageHeadSize at hhead
      obtain ⟨ms, hqueue, hms⟩ := ih (by omega) hloop
      exact ⟨m :: ms, by rw [hqueue]; simp, .cons hbody hk hms⟩

/-- The loop over a package whose messages are recorded as they were sent ends behind a frame.  The
induction is on the turns: a record that is right says how long its frame is. -/
theorem exists_group_of_readLoop {n : ℕ}
    {p stale after : List UInt8} {ms more : List Received}
    (hn : p.length ≤ n) (h : client.readLoop pb n (p ++ stale) p.length s = .more s')
    (hqueue : s'.recvMsgQueue = s.recvMsgQueue ++ ms) (hsizes : sizes ms = p.length)
    (htrace : ms ++ more = trace enableSerial r items) (hstream : p ++ after = stream items) :
    ∃ group items', items = group ++ items' ∧ p = stream group ∧ after = stream items' ∧
      more = trace enableSerial (finalSerial enableSerial r group) items' := by
  induction n generalizing p items s ms r with
  | zero =>
    obtain rfl : p = [] := eq_nil_of_length_eq_zero (by omega)
    obtain rfl := eq_nil_of_sizes hsizes
    exact ⟨[], items, rfl, rfl, hstream, htrace⟩
  | succ n ih =>
    rcases Nat.eq_zero_or_pos p.length with hzero | hpos
    · obtain rfl : p = [] := List.eq_nil_of_length_eq_zero hzero
      obtain rfl := eq_nil_of_sizes hsizes
      exact ⟨[], items, rfl, rfl, hstream, htrace⟩
    obtain ⟨l, m, k, hread, hloop⟩ := exists_of_readLoop hpos h
    obtain ⟨hhead, -, hk⟩ := readMessage_spec hread
    unfold messageHeadSize at hhead
    obtain ⟨ms', hqueue', hms'⟩ := queued_of_readLoop (by omega) hloop
    obtain rfl : ms = m :: ms' := by
      rw [hqueue', append_assoc] at hqueue
      exact (append_cancel_left hqueue).symm
    rcases items with _ | ⟨x, items⟩
    · cases htrace
    obtain ⟨rfl, htail⟩ := cons.inj htrace
    have hlen : k = (frameBytes x).length := by
      rw [hk rfl, length_frameBytes]
      rfl
    have hsome : ∀ m ∈ ms', m.body.isSome = true := fun m hm =>
      isSome_of_mem_trace ((congrArg (m ∈ ·) htail).mp (mem_append_left more hm))
    have hleft := hms'.long hsome
    rw [sizes_cons, ← hk rfl] at hsizes
    have hkp : k ≤ p.length := by omega
    have hp : p = frameBytes x ++ p.drop k := by
      have htake : p.take k = frameBytes x := by
        rw [← take_append_of_le_length hkp, hstream, stream_cons, take_left' hlen.symm]
      rw [← htake, take_append_drop]
    have hdrop : p.drop k ++ after = stream items := by
      rw [hp, stream_cons, append_assoc] at hstream
      exact append_cancel_left hstream
    rw [drop_append_of_le_length hkp, ← length_drop] at hloop
    obtain ⟨group, items', rfl, hgroup, hafter, hmore⟩ :=
      ih (by rw [length_drop]; omega) hloop hqueue' (by rw [length_drop]; omega) htail
        hdrop
    refine ⟨x :: group, items', rfl, ?_, hafter, hmore⟩
    rw [stream_cons, ← hgroup]
    exact hp

/-- The packages are rows of whole frames. -/
def Whole (items : List (Connection μ × Item μ)) (packages : List (List UInt8)) : Prop :=
  ∃ groups : List (List (Connection μ × Item μ)), groups.flatten = items ∧
    packages = groups.map stream

theorem queued_of_feed
    (h : feed (client.recvPackage pb) s deliveries = .more s') :
    ∃ ms, s'.recvMsgQueue = s.recvMsgQueue ++ ms ∧
      Queued (deliveries.map Prod.fst).flatten.length ms := by
  induction deliveries generalizing s with
  | nil =>
    cases h
    exact ⟨[], by simp, .nil⟩
  | cons d deliveries ih =>
    rw [feed_cons] at h
    rcases hd : client.recvPackage pb s d with s₁ | ⟨r, s₁⟩
    · rw [hd] at h
      obtain ⟨ms, hqueue, hms⟩ := queued_of_readLoop (le_refl _) hd
      obtain ⟨ms', hqueue', hms'⟩ := ih h
      refine ⟨ms ++ ms', by rw [hqueue', hqueue, append_assoc], ?_⟩
      rw [map_cons, flatten_cons, length_append]
      exact hms.append hms'
    · rw [hd] at h
      cases h

/-- **Cuts are noticed**: packages of a stream that is recorded as it was sent are rows of whole
frames. -/
theorem whole_of_feed
    (h : feed (client.recvPackage pb) s deliveries = .more s')
    (hqueue : s'.recvMsgQueue = s.recvMsgQueue ++ trace enableSerial r items)
    (hstream : (deliveries.map Prod.fst).flatten = stream items) :
    Whole items (deliveries.map Prod.fst) := by
  induction deliveries generalizing s items r with
  | nil =>
    refine ⟨[], ?_, rfl⟩
    rcases items with _ | ⟨x, items⟩
    · rfl
    · have hlen := congrArg List.length hstream
      rw [stream_cons, length_append, length_frameBytes, messageHeadSize] at hlen
      simp only [map_nil, flatten_nil, length_nil] at hlen
      omega
  | cons d deliveries ih =>
    rw [feed_cons] at h
    rcases hd : client.recvPackage pb s d with s₁ | ⟨_, s₁⟩
    · rw [hd] at h
      obtain ⟨ms₁, hqueue₁, hms₁⟩ := queued_of_readLoop (le_refl _) hd
      obtain ⟨ms₂, hqueue₂, hms₂⟩ := queued_of_feed h
      have htrace : ms₁ ++ ms₂ = trace enableSerial r items := by
        rw [hqueue₂, hqueue₁, append_assoc] at hqueue
        exact append_cancel_left hqueue
      -- Each part takes at least the bytes it was given, and all of them together no more.
      have hsome : ∀ m ∈ ms₁ ++ ms₂, m.body.isSome = true := fun m hm =>
        isSome_of_mem_trace (htrace ▸ hm)
      rw [forall_mem_append] at hsome
      have hle₁ := hms₁.long hsome.1
      have hle₂ := hms₂.long hsome.2
      have hsizes := congrArg sizes htrace
      rw [map_cons, flatten_cons] at hstream
      rw [sizes_append, sizes_trace, ← hstream, length_append] at hsizes
      obtain ⟨group, items', rfl, hgroup, hrest, hmore⟩ :=
        exists_group_of_readLoop (le_refl _) hd hqueue₁ (by omega) htrace hstream
      obtain ⟨groups, rfl, hpackages⟩ := ih h (by rw [hqueue₂, hmore]) hrest
      exact ⟨group :: groups, rfl, by rw [map_cons, map_cons, hgroup, hpackages]⟩
    · rw [hd] at h
      cases h

theorem spans_of_trace
    (h : ∀ m ∈ trace enableSerial r items, 0 < m.type ∨ m.body = some []) :
    ∀ x ∈ items, x.2.Spans := by
  induction items generalizing r with
  | nil => simp
  | cons x items ih =>
    rw [trace, forall_mem_cons] at h
    refine forall_mem_cons.2 ⟨?_, ih h.2⟩
    exact h.1.imp id fun hbody => some.inj hbody

/-- `RecvMsgLoop` at a frame. -/
def recvFrame (client : UnityClient δ) (s : RecvState) (x : Connection μ × Item μ) :
    Flow Unit RecvState :=
  match x.2.check client s.lastRecvSerial with
  | none => .stop () s
  | some l => .more ⟨l, s.recvMsgQueue ++ [x.2.enqueued client l.toUInt32]⟩

theorem readLoop_group (hs : ∀ x ∈ items, Sent pb key server peer client x)
    (hp : Peers key server peer client) (hspans : ∀ x ∈ items, x.2.Spans) {n : ℕ}
    (hn : (stream items).length ≤ n) (stale : List UInt8) (s : RecvState) :
    client.readLoop pb n (stream items ++ stale) (stream items).length s =
      feed (recvFrame client) s items := by
  induction items generalizing n s with
  | nil => cases n <;> rfl
  | cons x items ih =>
    rw [stream_cons, length_append, length_frameBytes, messageHeadSize] at hn
    obtain ⟨n, rfl⟩ : ∃ m, n = m + 1 := ⟨n - 1, by omega⟩
    have hpos : (stream (x :: items)).length ≠ 0 := by
      rw [stream_cons, length_append, length_frameBytes, messageHeadSize]
      omega
    have hrest : (stream (x :: items)).length - (frameBytes x).length = (stream items).length := by
      rw [stream_cons, length_append]
      omega
    have hdrop : (stream (x :: items) ++ stale).drop (frameBytes x).length =
        stream items ++ stale := by
      rw [stream_cons, append_assoc, drop_left]
    have hread : client.readMessage pb s.lastRecvSerial (stream (x :: items) ++ stale) =
        (x.2.check client s.lastRecvSerial).map fun l =>
          (l, x.2.enqueued client l.toUInt32, (frameBytes x).length) := by
      rw [stream_cons, append_assoc]
      exact readMessage_frame (hs x (by simp)) hp (hspans x (by simp)) _ _
    rw [readLoop, if_neg hpos, hread, feed_cons, recvFrame]
    rcases x.2.check client s.lastRecvSerial with _ | l
    · rfl
    · simp only [map_some, Flow.more_bind]
      rw [hdrop, hrest]
      exact ih (fun y hy => hs y (mem_cons_of_mem x hy))
        (fun y hy => hspans y (mem_cons_of_mem x hy)) (by omega) _

theorem feed_groups {groups : List (List (Connection μ × Item μ))}
    (hs : ∀ x ∈ groups.flatten, Sent pb key server peer client x)
    (hp : Peers key server peer client) (hspans : ∀ x ∈ groups.flatten, x.2.Spans)
    (hd : deliveries.map Prod.fst = groups.map stream) (s : RecvState) :
    feed (client.recvPackage pb) s deliveries = feed (recvFrame client) s groups.flatten := by
  induction groups generalizing deliveries s with
  | nil =>
    rw [map_nil, map_eq_nil_iff] at hd
    rw [hd]
    rfl
  | cons group groups ih =>
    obtain ⟨d, rest, rfl, hdata, hrest⟩ := map_eq_cons_iff.1 hd
    rw [flatten_cons, forall_mem_append] at hs hspans
    have hpackage : client.recvPackage pb s d = feed (recvFrame client) s group := by
      rw [recvPackage, hdata]
      exact readLoop_group hs.1 hp hspans.1 (le_refl _) _ _
    rw [feed_cons, flatten_cons, feed_append, hpackage]
    exact congrArg _ (funext fun s => ih hs.2 hspans.2 hrest s)

/-- The items the Unity client takes as a C++ peer does: there is no jump, a serial is one an `int`
can have, and a body is of a positive type that has a parser.  With serials there is no message of
type 0. -/
def Item.Clear (client : UnityClient δ) (enableSerial : Bool) : Item μ → Prop
  | .message info _ =>
    (enableSerial = true → 0 < info.type ∧ info.serial.toNat < 2 ^ 31) ∧
      (info.msg.data = [] ∨ 0 < info.type ∧ (client.registerTable info.type).isSome = true)
  | .heartbeat => True
  | .jump _ => False

theorem Item.Clear.taken {item : Item μ} (h : item.Clear client enableSerial) :
    item.Taken enableSerial := by
  rcases item with ⟨info, content⟩ | _ | serial
  · exact fun hon => (h.1 hon).1
  · trivial
  · trivial

theorem Item.Clear.spans {item : Item μ} (h : item.Clear client enableSerial) :
    item.Spans := by
  rcases item with ⟨info, content⟩ | _ | serial
  · exact h.2.symm.imp And.left id
  · exact .inr rfl
  · exact .inr rfl

theorem protoData_eq_iff {info : SendMessageInfo} (hpos : 0 < info.type) :
    client.protoData info = some info.msg.data ↔
      info.msg.data = [] ∨ 0 < info.type ∧ (client.registerTable info.type).isSome = true := by
  unfold protoData
  by_cases hnil : info.msg.data = []
  · simp [hnil]
  · rw [if_pos ⟨hpos, hnil⟩]
    cases client.registerTable info.type <;> simp [hnil, hpos]

/-- **One item at the Unity client**: it is checked and queued as a C++ peer takes it if and only
if it is clear. -/
theorem check_iff (hp : Peers key server peer client) {last : Int32} {item : Item μ}
    (hf : item.Follows server.enableSerial last.toUInt32) (ht : item.Taken server.enableSerial)
    (hspans : item.Spans) :
    (∃ l, item.check client last = some l ∧ item.enqueued client l.toUInt32 =
        item.received (item.next server.enableSerial last.toUInt32)) ↔
      item.Clear client server.enableSerial := by
  rcases item with ⟨info, content⟩ | _ | serial
  · by_cases hpos : 0 < info.type
    · simp only [Item.check, if_pos hpos, Item.enqueued, Item.received, Item.info, Item.Clear,
        Item.next, Received.mk.injEq, true_and, protoData_eq_iff hpos]
      rcases hes : server.enableSerial with _ | _
      · have hoff : client.enableSerial = false := hp.clientSerial.trans hes
        simp [UnityClient.checkSerial, hoff]
      · have hon : client.enableSerial = true := hp.clientSerial.trans hes
        rw [checkSerial_next hon ((hf hes).2 hpos)]
        simp only [hpos, and_self, if_true, forall_const, true_and]
        constructor
        · rintro ⟨l, hl, hbody, -⟩
          exact ⟨(ite_none_right_eq_some.1 hl).1, hbody⟩
        · rintro ⟨hsmall, hbody⟩
          exact ⟨last + 1, if_pos hsmall, hbody, rfl⟩
    · -- a message of type 0, which both take without looking at it
      have hoff : ¬server.enableSerial = true := fun hon => hpos (ht hon)
      have hnil : info.msg.data = [] := hspans.resolve_left hpos
      simp [Item.check, Item.enqueued, Item.received, Item.info, Item.Clear, Item.next,
        UnityClient.protoData, hpos, hoff, hnil]
  · exact ⟨fun _ => trivial, fun _ => ⟨last, rfl, rfl⟩⟩
  · refine ⟨?_, False.elim⟩
    rintro ⟨l, hl, heq⟩
    cases hl
    have hnext : last.toUInt32 = serial := congrArg Received.serial heq
    rw [Item.Follows, hnext] at hf
    exact UInt32.lt_irrefl _ hf

theorem exists_of_feed_recvFrame
    (h : feed (recvFrame client) s items = .more s') :
    ∃ ms, s'.recvMsgQueue = s.recvMsgQueue ++ ms := by
  induction items generalizing s with
  | nil =>
    cases h
    exact ⟨[], by simp⟩
  | cons x items ih =>
    rw [feed_cons, recvFrame] at h
    rcases hc : x.2.check client s.lastRecvSerial with _ | l
    · rw [hc] at h
      cases h
    · rw [hc] at h
      obtain ⟨ms, hms⟩ := ih h
      exact ⟨x.2.enqueued client l.toUInt32 :: ms, by rw [hms]; simp⟩

theorem feed_recvFrame_iff (hp : Peers key server peer client) {s : RecvState}
    (hin : InStep server.enableSerial s.lastRecvSerial.toUInt32 items)
    (ht : ∀ x ∈ items, x.2.Taken server.enableSerial) (hspans : ∀ x ∈ items, x.2.Spans) :
    (∃ s', feed (recvFrame client) s items = .more s' ∧ s'.recvMsgQueue = s.recvMsgQueue ++
        trace server.enableSerial s.lastRecvSerial.toUInt32 items ∧
      s'.lastRecvSerial.toUInt32 =
        finalSerial server.enableSerial s.lastRecvSerial.toUInt32 items) ↔
      ∀ x ∈ items, x.2.Clear client server.enableSerial := by
  induction items generalizing s with
  | nil => simp [trace, finalSerial]
  | cons x items ih =>
    obtain ⟨hf, hrest⟩ := hin
    rw [forall_mem_cons] at ht hspans
    rw [forall_mem_cons, ← check_iff hp hf ht.1 hspans.1]
    constructor
    · rintro ⟨s', hfeed, hqueue, hfinal⟩
      rw [feed_cons, recvFrame] at hfeed
      rcases hc : x.2.check client s.lastRecvSerial with _ | l
      · rw [hc] at hfeed
        cases hfeed
      rw [hc] at hfeed
      -- The records agree in their first entry, so the serials do.
      obtain ⟨ms, hms⟩ := exists_of_feed_recvFrame hfeed
      have hrec : x.2.enqueued client l.toUInt32 :: ms = trace server.enableSerial
          s.lastRecvSerial.toUInt32 (x :: items) := by
        rw [hms, append_assoc] at hqueue
        exact append_cancel_left hqueue
      obtain ⟨hfirst, hmore⟩ := cons.inj hrec
      have hnext : l.toUInt32 = x.2.next server.enableSerial s.lastRecvSerial.toUInt32 :=
        congrArg serial hfirst
      rw [← hnext] at hrest
      refine ⟨⟨l, rfl, hfirst⟩, (ih hrest ht.2 hspans.2).1 ⟨s', hfeed, ?_, ?_⟩⟩
      · rw [hms, hmore, hnext]
      · rw [hfinal, hnext]
        rfl
    · rintro ⟨⟨l, hl, hfirst⟩, hclear⟩
      have hnext : l.toUInt32 = x.2.next server.enableSerial s.lastRecvSerial.toUInt32 :=
        congrArg serial hfirst
      rw [← hnext] at hrest
      have hstep : InStep server.enableSerial (⟨l, s.recvMsgQueue ++
          [x.2.enqueued client l.toUInt32]⟩ : RecvState).lastRecvSerial.toUInt32 items := hrest
      obtain ⟨s', hfeed, hqueue, hfinal⟩ := (ih hstep ht.2 hspans.2).2 hclear
      refine ⟨s', ?_, ?_, ?_⟩
      · rw [feed_cons, recvFrame, hl]
        exact hfeed
      · rw [hqueue, trace, ← hfirst, ← hnext]
        simp
      · rw [hfinal, hnext]
        rfl

/-- Both receivers get through, and with the same: type, tag and body of every message, with
the serial after it, and the serial in the end. -/
def Agree (pb : Protobuf δ μ) (client : UnityClient δ) (mtime : ℕ) (conn : Connection μ)
    (last : Int32) (inputs : List KcpInput) (deliveries : List (List UInt8 × List UInt8)) : Prop :=
  ∃ s k, feed (client.recvPackage pb) ⟨last, []⟩ deliveries = .more s ∧
    feed (KcpPipeline.upflow messageConfig (recordedDecode pb mtime))
      (.new messageConfig ⟨conn, []⟩) inputs = .more k ∧
    s.recvMsgQueue = k.pipe.log.conn.received ∧
    s.lastRecvSerial.toUInt32 = k.pipe.log.conn.conn.recvSerial

/-- **The extent of the agreement**, for a stream that is cut into packages in any way, any
datagrams that bring them and any bytes behind them. -/
theorem agrees_iff (hp : Peers key server peer client)
    (hs : ∀ x ∈ items, Sent pb key server peer client x) {conn : Connection μ}
    (hg : Good key peer conn) {last : Int32} (hlast : last.toUInt32 = conn.recvSerial)
    (hin : InStep server.enableSerial conn.recvSerial items) {inputs : List KcpInput}
    (hproper : ∀ input ∈ inputs, input.Proper) (hdata : inputs.flatMap KcpInput.data = stream items)
    (hstream : (deliveries.map Prod.fst).flatten = stream items) (mtime : ℕ) :
    Agree pb client mtime conn last inputs deliveries ↔ Whole items (deliveries.map Prod.fst) ∧
        ∀ x ∈ items, x.2.Clear client server.enableSerial := by
  have hpeer := upflow_stream hp mtime hs hg hin hproper hdata
  constructor
  · rintro ⟨s, k', hunity, hup', hqueue, hserial⟩
    have ht := taken_of_upflow hp mtime hs hg hin hproper hdata hup'
    obtain ⟨k, hup, hrec, hfinal⟩ := hpeer ht
    rw [hup] at hup'
    cases hup'
    rw [hrec, ← hlast] at hqueue
    rw [hfinal, ← hlast] at hserial
    rw [← hlast] at hin
    obtain ⟨ms, hms, hrow⟩ := queued_of_feed hunity
    have hspans : ∀ x ∈ items, x.2.Spans := by
      have hbodies : ∀ m ∈ trace server.enableSerial last.toUInt32 items,
          0 < m.type ∨ m.body = some [] := by
        rw [← hqueue, hms]
        exact hrow.noBody
      exact spans_of_trace hbodies
    obtain ⟨groups, rfl, hgroups⟩ := whole_of_feed hunity hqueue hstream
    rw [feed_groups hs hp hspans hgroups] at hunity
    exact ⟨⟨groups, rfl, hgroups⟩, (feed_recvFrame_iff (s := ⟨last, []⟩) hp hin ht hspans).1
      ⟨s, hunity, hqueue, hserial⟩⟩
  · rintro ⟨⟨groups, rfl, hgroups⟩, hclear⟩
    have ht := fun x hx => (hclear x hx).taken
    have hspans := fun x hx => (hclear x hx).spans
    obtain ⟨k, hup, hrec, hfinal⟩ := hpeer ht
    rw [← hlast] at hin hrec hfinal
    obtain ⟨s, hunity, hqueue, hserial⟩ :=
      (feed_recvFrame_iff (s := ⟨last, []⟩) hp hin ht hspans).2 hclear
    rw [← feed_groups hs hp hspans hgroups] at hunity
    refine ⟨s, k, hunity, hup, ?_, ?_⟩
    · rw [hqueue, hrec]
      rfl
    · rw [hserial, hfinal]

theorem not_whole_of_long {packages : List (List UInt8)}
    (hlen : ∀ package ∈ packages, package.length ≤ maxKcpPackageSize) (hx : x ∈ items)
    (hlong : maxKcpPackageSize < (frameBytes x).length) : ¬Whole items packages := by
  rintro ⟨groups, rfl, rfl⟩
  obtain ⟨group, hgroup, hxg⟩ := mem_flatten.1 hx
  have hfit := hlen (stream group) (mem_map_of_mem hgroup)
  obtain ⟨before, after, rfl⟩ := append_of_mem hxg
  simp only [stream, flatMap_append, flatMap_cons, length_append] at hfit
  omega

/-- What the server's KCP path makes of items: `downflow` merges them as they are queued and
`write` cuts what it merges. -/
structure Path (items : List (Connection μ × Item μ))
    (calls : List (List (Connection μ × SendMessageInfo) × ℕ)) (outs : List (List UInt8)) :
    Prop where
  arrival : calls.flatMap Prod.fst = items.map queued
  space : ∀ call ∈ calls, messageHeadSize ≤ call.2
  sent : ∃ st, Downflow.serve encodeMessage ⟨[], 0, []⟩ calls = some (outs, st) ∧ st.Drained

theorem encodes_queued (hs : ∀ x ∈ items, Sent pb key server peer client x) :
    ∀ d ∈ items.map queued, Encodes messageHeadSize (encodeMessage d) (frame d).1 (frame d).2 := by
  intro d hd
  obtain ⟨x, hx, rfl⟩ := mem_map.1 hd
  exact (hs x hx).encodes

theorem flatMap_queued (items : List (Connection μ × Item μ)) :
    ((items.map queued).flatMap fun d => (frame d).1 ++ (frame d).2) = stream items := by
  rw [flatMap_map]
  rfl

theorem Path.single (hs : ∀ x ∈ items, Sent pb key server peer client x) {space : ℕ}
    (hspace : messageHeadSize ≤ space) (hfit : (stream items).length ≤ space) :
    Path items [(items.map queued, space)] [stream items] := by
  rw [← flatMap_queued] at hfit
  have hloop := encodeLoop_fits (by decide : 0 < messageHeadSize) (encodes_queued hs) hfit
  rw [flatMap_queued] at hloop
  refine ⟨by simp, by simpa using hspace, ⟨[], 0, []⟩, ?_, rfl, rfl⟩
  simp [Downflow.serve, Downflow.downflow, hloop]

theorem Path.flatten_packages (hs : ∀ x ∈ items, Sent pb key server peer client x)
    {calls : List (List (Connection μ × SendMessageInfo) × ℕ)} {outs : List (List UInt8)}
    (h : Path items calls outs) : (packages outs).flatten = stream items := by
  obtain ⟨st, hserve, hdrained⟩ := h.sent
  have hencodes : ∀ d ∈ calls.flatMap Prod.fst,
      Encodes messageHeadSize (encodeMessage d) (frame d).1 (frame d).2 := by
    rw [h.arrival]
    exact encodes_queued hs
  rw [Kcp.flatten_packages, serve_drained (by decide) hencodes h.space hserve hdrained, h.arrival,
    flatMap_queued]

/-- The datagrams bring the packages, and none of them is taken for a handshake. -/
structure Brings (inputs : List KcpInput) (packages : List (List UInt8)) : Prop where
  noHandshake : ∀ input ∈ inputs, input.isHandshake = false
  packages : inputs.flatMap KcpInput.packages = packages

theorem Brings.proper {inputs : List KcpInput} {packages : List (List UInt8)}
    (h : Brings inputs packages) (hlen : ∀ package ∈ packages, package.length ≤ maxKcpPackageSize) :
    ∀ input ∈ inputs, input.Proper := by
  intro input hi
  rw [KcpInput.Proper, h.noHandshake input hi]
  intro package hp
  exact hlen package (h.packages ▸ mem_flatMap.2 ⟨input, hi, hp⟩)

theorem Brings.data {inputs : List KcpInput} {packages : List (List UInt8)}
    (h : Brings inputs packages) : inputs.flatMap KcpInput.data = packages.flatten := by
  obtain ⟨hno, rfl⟩ := h
  induction inputs with
  | nil => rfl
  | cons input inputs ih =>
    have hinput : input.data = input.packages.flatten := by
      rw [KcpInput.data, hno input (by simp)]
      rfl
    rw [flatMap_cons, flatMap_cons, flatten_append, hinput,
      ih fun i hi => hno i (mem_cons_of_mem input hi)]

/-- **The Unity client and a C++ peer accept the same messages** if and only if every package is a
row of whole messages and every item is clear. -/
theorem unity_understands_iff (hp : Peers key server peer client)
    (hs : ∀ x ∈ items, Sent pb key server peer client x) {conn : Connection μ}
    (hg : Good key peer conn) {last : Int32} (hlast : last.toUInt32 = conn.recvSerial)
    (hin : InStep server.enableSerial conn.recvSerial items)
    {calls : List (List (Connection μ × SendMessageInfo) × ℕ)} {outs : List (List UInt8)}
    (hpath : Path items calls outs) {inputs : List KcpInput}
    (hinputs : Brings inputs (packages outs))
    (hdeliveries : deliveries.map Prod.fst = packages outs) (mtime : ℕ) :
    Agree pb client mtime conn last inputs deliveries ↔
      Whole items (packages outs) ∧ ∀ x ∈ items, x.2.Clear client server.enableSerial := by
  have hstream : (packages outs).flatten = stream items := hpath.flatten_packages hs
  rw [← hdeliveries]
  refine agrees_iff hp hs hg hlast hin (hinputs.proper fun _ => length_of_mem_packages) ?_ ?_ mtime
  · rw [hinputs.data, hstream]
  · rw [hdeliveries, hstream]

end Frames

/-- `serialEnd` at its start, as a server and as a peer; it leaves type 6 to
`otherMessageHandle_`. -/
def kcpEnd : Connection (ℕ × List UInt8) := { serialEnd with recvSerial := 0, lastSendSerial := 0 }

/-- A Unity client with parsers for the types 5 and 6. -/
def unityEnd : UnityClient ℕ where
  enableSerial := true
  enableRecvCRC := true
  crypter := some (simpleXORCrypter twoByteKey)
  registerTable := fun type => if type = 5 ∨ type = 6 then some 1 else none

/-- A crypted raw message of type 6. -/
def rawItem (serial : UInt32) (body : List UInt8) :
    Connection (ℕ × List UInt8) × Item (ℕ × List UInt8) :=
  (kcpEnd, .message ⟨6, true, 0, serial, .raw (some body)⟩ (.raw body))

theorem peers_unityEnd : Peers (some twoByteKey) kcpEnd.terminal kcpEnd.terminal unityEnd :=
  ⟨rfl, rfl, fun _ => rfl, fun _ => rfl, rfl⟩

theorem good_kcpEnd : Good (some twoByteKey) kcpEnd.terminal kcpEnd := ⟨rfl, rfl, rfl⟩

theorem sent_rawItem (serial : UInt32) {body : List UInt8} (hlen : body.length ≤ maxMessageSize) :
    Sent (.ofBytes ℕ) (some twoByteKey) kcpEnd.terminal kcpEnd.terminal unityEnd
      (rawItem serial body) := by
  refine ⟨rfl, rfl, fun info content h => ?_⟩
  cases h
  have htype : (0 : Int32) ≤ 6 := by decide
  exact ⟨htype, fun _ => rfl, hlen, .other rfl rfl, fun _ _ => rfl⟩

theorem follows_rawItem {r serial : UInt32} (h : serial = r + 1) {enableSerial : Bool}
    {body : List UInt8} : (rawItem serial body).2.Follows enableSerial r :=
  fun _ => iff_of_true h (by decide : (0 : Int32) < 6)

theorem taken_rawItem {serial : UInt32} {enableSerial : Bool} {body : List UInt8} :
    (rawItem serial body).2.Taken enableSerial :=
  fun _ => (by decide : (0 : Int32) < 6)

theorem sent_heartbeat : Sent (.ofBytes ℕ) (some twoByteKey) kcpEnd.terminal kcpEnd.terminal
    unityEnd (kcpEnd, .heartbeat) :=
  ⟨rfl, rfl, by nofun⟩

theorem sent_jump (serial : UInt32) :
    Sent (.ofBytes ℕ) (some twoByteKey) kcpEnd.terminal kcpEnd.terminal unityEnd
      (kcpEnd, .jump serial) :=
  ⟨rfl, rfl, by nofun⟩

def oneDatagram (outs : List (List UInt8)) : List KcpInput := [⟨[], true, packages outs⟩]

theorem brings_oneDatagram (outs : List (List UInt8)) : Brings (oneDatagram outs) (packages outs) :=
  ⟨by simp [oneDatagram, KcpInput.isHandshake, udpHandshakeSize], by simp [oneDatagram]⟩

def exactMemory (outs : List (List UInt8)) : List (List UInt8 × List UInt8) :=
  (packages outs).map fun package => (package, [])

theorem map_exactMemory (outs : List (List UInt8)) :
    (exactMemory outs).map Prod.fst = packages outs := by
  simp [exactMemory, Function.comp_def]

def shortItems : List (Connection (ℕ × List UInt8) × Item (ℕ × List UInt8)) :=
  [rawItem 1 [4], (kcpEnd, .heartbeat)]

theorem unity_understands_short :
    Path shortItems [(shortItems.map queued, maxBufferSize)] [stream shortItems] ∧
      Agree (.ofBytes ℕ) unityEnd 0 kcpEnd 0 (oneDatagram [stream shortItems])
        (exactMemory [stream shortItems]) := by
  have hs : ∀ x ∈ shortItems,
      Sent (.ofBytes ℕ) (some twoByteKey) kcpEnd.terminal kcpEnd.terminal unityEnd x := by
    simp only [shortItems, mem_cons, not_mem_nil, or_false, forall_eq_or_imp, forall_eq]
    exact ⟨sent_rawItem 1 (by decide), sent_heartbeat⟩
  have hpath : Path shortItems [(shortItems.map queued, maxBufferSize)] [stream shortItems] :=
    Path.single hs (by decide) (by decide +kernel)
  have hin : InStep kcpEnd.terminal.enableSerial kcpEnd.recvSerial shortItems :=
    ⟨follows_rawItem rfl, trivial, trivial⟩
  have hone : packages [stream shortItems] = [stream shortItems] := by decide +kernel
  refine ⟨hpath, (unity_understands_iff peers_unityEnd hs good_kcpEnd rfl hin hpath
    (brings_oneDatagram _) (map_exactMemory _) 0).2 ⟨⟨[shortItems], ?_, hone⟩, ?_⟩⟩
  · simp
  · simp only [shortItems, mem_cons, not_mem_nil, or_false, forall_eq_or_imp, forall_eq]
    exact ⟨⟨fun _ => by decide, .inr ⟨by decide, rfl⟩⟩, trivial⟩

/-- What `resend` sends: a jump and the next message. -/
def jumpItems : List (Connection (ℕ × List UInt8) × Item (ℕ × List UInt8)) :=
  [(kcpEnd, .jump 5), rawItem 6 [4]]

/-- A body that `write` has to cut. -/
def longBody : List UInt8 := List.replicate 5000 7

theorem length_longBody : longBody.length = 5000 := length_replicate

def longItems : List (Connection (ℕ × List UInt8) × Item (ℕ × List UInt8)) := [rawItem 1 longBody]

/-- **The Unity client does not follow a jump and does not join a message that was cut.** -/
theorem unity_misses_jump_and_cut :
    (Path jumpItems [(jumpItems.map queued, maxBufferSize)] [stream jumpItems] ∧
      (∃ k, feed (KcpPipeline.upflow messageConfig (recordedDecode (.ofBytes ℕ) 0))
        (.new messageConfig ⟨kcpEnd, []⟩) (oneDatagram [stream jumpItems]) = .more k) ∧
      ∃ s, feed (unityEnd.recvPackage (.ofBytes ℕ)) ⟨0, []⟩ (exactMemory [stream jumpItems]) =
        .stop () s) ∧
    Path longItems [(longItems.map queued, maxBufferSize)] [stream longItems] ∧
      (∃ k, feed (KcpPipeline.upflow messageConfig (recordedDecode (.ofBytes ℕ) 0))
        (.new messageConfig ⟨kcpEnd, []⟩) (oneDatagram [stream longItems]) = .more k) ∧
      ¬Agree (.ofBytes ℕ) unityEnd 0 kcpEnd 0 (oneDatagram [stream longItems])
        (exactMemory [stream longItems]) := by
  have hjump : ∀ x ∈ jumpItems,
      Sent (.ofBytes ℕ) (some twoByteKey) kcpEnd.terminal kcpEnd.terminal unityEnd x := by
    simp only [jumpItems, mem_cons, not_mem_nil, or_false, forall_eq_or_imp, forall_eq]
    exact ⟨sent_jump 5, sent_rawItem 6 (by decide)⟩
  have hlong : ∀ x ∈ longItems,
      Sent (.ofBytes ℕ) (some twoByteKey) kcpEnd.terminal kcpEnd.terminal unityEnd x := by
    simp only [longItems, mem_singleton, forall_eq]
    exact sent_rawItem 1 (by rw [length_longBody]; decide)
  have hsize : (frameBytes (rawItem 1 longBody)).length = 5022 := by
    have hbytes : (rawItem 1 longBody).2.info.msg.data = longBody := rfl
    rw [length_frameBytes, hbytes, length_longBody, messageHeadSize]
  have hpathJump : Path jumpItems [(jumpItems.map queued, maxBufferSize)] [stream jumpItems] :=
    Path.single hjump (by decide) (by decide +kernel)
  have hpathLong : Path longItems [(longItems.map queued, maxBufferSize)] [stream longItems] := by
    refine Path.single hlong (by decide) ?_
    rw [longItems, stream_cons, length_append, hsize]
    decide
  have hinJump : InStep kcpEnd.terminal.enableSerial kcpEnd.recvSerial jumpItems :=
    ⟨(by decide : (0 : UInt32) < 5), follows_rawItem rfl, trivial⟩
  have hinLong : InStep kcpEnd.terminal.enableSerial kcpEnd.recvSerial longItems :=
    ⟨follows_rawItem rfl, trivial⟩
  have htakenJump : ∀ x ∈ jumpItems, x.2.Taken kcpEnd.terminal.enableSerial := by
    simp only [jumpItems, mem_cons, not_mem_nil, or_false, forall_eq_or_imp, forall_eq]
    exact ⟨trivial, taken_rawItem⟩
  have hbrings := fun outs => (brings_oneDatagram outs).proper fun _ => length_of_mem_packages
  refine ⟨⟨hpathJump, ?_, ?_⟩, hpathLong, ?_, ?_⟩
  · obtain ⟨k, hk, -⟩ := upflow_stream peers_unityEnd 0 hjump good_kcpEnd hinJump (hbrings _)
      ((brings_oneDatagram _).data.trans (hpathJump.flatten_packages hjump)) htakenJump
    exact ⟨k, hk⟩
  · have hone : packages [stream jumpItems] = [stream jumpItems] := by decide +kernel
    have hgroups : (exactMemory [stream jumpItems]).map Prod.fst = [jumpItems].map stream :=
      (map_exactMemory _).trans hone
    have hspans : ∀ x ∈ [jumpItems].flatten, x.2.Spans := by
      simp only [jumpItems, flatten_cons, flatten_nil, append_nil, mem_cons,
        not_mem_nil, or_false, forall_eq_or_imp, forall_eq]
      exact ⟨.inr rfl, .inl (by decide)⟩
    rw [feed_groups (by simpa using hjump) peers_unityEnd hspans hgroups]
    exact ⟨_, rfl⟩
  · have htaken : ∀ x ∈ longItems, x.2.Taken kcpEnd.terminal.enableSerial := by
      simp only [longItems, mem_singleton, forall_eq]
      exact taken_rawItem
    obtain ⟨k, hk, -⟩ := upflow_stream peers_unityEnd 0 hlong good_kcpEnd hinLong (hbrings _)
      ((brings_oneDatagram _).data.trans (hpathLong.flatten_packages hlong)) htaken
    exact ⟨k, hk⟩
  · intro hagree
    have hstream : ((exactMemory [stream longItems]).map Prod.fst).flatten = stream longItems := by
      rw [map_exactMemory]
      exact hpathLong.flatten_packages hlong
    obtain ⟨hwhole, -⟩ := (agrees_iff peers_unityEnd hlong good_kcpEnd rfl hinLong (hbrings _)
      ((brings_oneDatagram _).data.trans (hpathLong.flatten_packages hlong)) hstream 0).1 hagree
    rw [map_exactMemory] at hwhole
    have hcut : maxKcpPackageSize < (frameBytes (rawItem 1 longBody)).length := by
      rw [hsize]
      decide
    exact not_whole_of_long (fun _ => length_of_mem_packages) (by simp [longItems]) hcut hwhole

end Corpc.Kcp
