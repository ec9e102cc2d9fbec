/-
# Framing: `MessagePipeline::downflow`

`corpc_io.cpp`.  `downflow` fills one output buffer from the queue of a connection.  An encoder
writes one item; a body that does not fit goes to `downflowBuf_` and is sent from there,
`downflowBufSentNum_` bytes of it being gone already, before the next item is looked at.

An item is what its encoder reads, the state of the connection at the time included.
-/

import Corpc.Wire.Define

namespace Corpc.Pipeline

open Wire List Nat

variable {δ : Type}

/-- `EncodeFunction` on items of type `δ`: the item, the space, `downflowBuf` and
`downflowBufSentNum`. -/
abbrev EncodeFunction (δ : Type) := δ → ℕ → List UInt8 → ℕ → Encoded

/-- What `downflow` works on: the spill, and the data queue of the connection. -/
structure Downflow (δ : Type) where
  downflowBuf : List UInt8
  downflowBufSentNum : ℕ
  datas : List δ

/-- A call of `downflow`: the bytes in the buffer, or `false`, or a failed
`assert`. -/
inductive Sent (δ : Type)
  | sent (bytes : List UInt8) (st : Downflow δ)
  | failed
  | abort

def Sent.prepend (bytes : List UInt8) : Sent δ → Sent δ
  | .sent out st => .sent (bytes ++ out) st
  | .failed => .failed
  | .abort => .abort

/-- The `while` loop over the queue, with `space` bytes left in the buffer. -/
def encodeLoop (encode : EncodeFunction δ) : List δ → ℕ → List UInt8 → ℕ → Sent δ
  | [], _, buf, sentNum => .sent [] ⟨buf, sentNum, []⟩
  | d :: datas, space, buf, sentNum =>
    match encode d space buf sentNum with
    | .failed => .failed
    | .abort => .abort
    -- nothing written: the buffer is full
    | .wrote [] buf sentNum => .sent [] ⟨buf, sentNum, d :: datas⟩
    | .wrote (b :: bytes) buf sentNum =>
      (encodeLoop encode datas (space - (b :: bytes).length) buf sentNum).prepend (b :: bytes)

def Downflow.downflow (encode : EncodeFunction δ) (st : Downflow δ) (space : ℕ) : Sent δ :=
  let dlen := st.downflowBuf.length
  if 0 < dlen then
    if dlen ≤ st.downflowBufSentNum then .abort
    else if dlen - st.downflowBufSentNum ≤ space then
      let out := st.downflowBuf.drop st.downflowBufSentNum
      if space = out.length then .sent out ⟨[], 0, st.datas⟩
      else (encodeLoop encode st.datas (space - out.length) [] 0).prepend out
    else
      .sent ((st.downflowBuf.drop st.downflowBufSentNum).take space)
        { st with downflowBufSentNum := st.downflowBufSentNum + space }
  else encodeLoop encode st.datas space st.downflowBuf st.downflowBufSentNum

/-- Calls of `downflow` with buffers of the given sizes: what they write, and the
state afterwards, `none` where one of them fails. -/
def Downflow.downflows (encode : EncodeFunction δ) :
    Downflow δ → List ℕ → Option (List (List UInt8) × Downflow δ)
  | st, [] => some ([], st)
  | st, space :: spaces =>
    match st.downflow encode space with
    | .sent out st => (st.downflows encode spaces).map fun (outs, st) => (out :: outs, st)
    | _ => none

/-- Calls of `downflow`, each with the items that were queued since the last one and the
size of its buffer. -/
def Downflow.serve (encode : EncodeFunction δ) :
    Downflow δ → List (List δ × ℕ) → Option (List (List UInt8) × Downflow δ)
  | st, [] => some ([], st)
  | st, (queued, space) :: calls =>
    match ({ st with datas := st.datas ++ queued } : Downflow δ).downflow encode space with
    | .sent out st => (st.serve encode calls).map fun (outs, st) => (out :: outs, st)
    | _ => none

/-- `UdpPipeline::downflow(buf, space, size)`: one item, which has to fit. -/
def UdpPipeline.downflow (encode : EncodeFunction δ) (st : Downflow δ) (space : ℕ) : Sent δ :=
  match st.datas with
  | [] => .sent [] st
  | d :: datas =>
    match encode d space st.downflowBuf st.downflowBufSentNum with
    | .failed => .failed
    | .abort => .abort
    | .wrote bytes buf sentNum =>
      if 0 < buf.length then .failed else .sent bytes ⟨buf, sentNum, datas⟩

def Downflow.Drained (st : Downflow δ) : Prop := st.downflowBuf = [] ∧ st.datas = []

/-- **What an encoder does with an item** that has the given head and body: it
waits for space for the head, writes both if they fit, and otherwise spills the
body and says how much of it is written. -/
structure Encodes (headSize : ℕ) (encode : ℕ → List UInt8 → ℕ → Encoded)
    (head body : List UInt8) : Prop where
  length_head : head.length = headSize
  waits : ∀ space buf sentNum, space < headSize → encode space buf sentNum = .wrote [] buf sentNum
  fits : ∀ space, headSize + body.length ≤ space → encode space [] 0 = .wrote (head ++ body) [] 0
  spills : ∀ space, headSize ≤ space → space < headSize + body.length →
    encode space [] 0 = .wrote (head ++ body.take (space - headSize)) body (space - headSize)

/-- The frame of an item, cut behind its head: what is in the buffer and what is left of
the spill. -/
def encodedFrame (headSize : ℕ) : Encoded → Option (List UInt8 × List UInt8)
  | .wrote bytes buf sentNum =>
    let all := bytes ++ buf.drop sentNum
    some (all.take headSize, all.drop headSize)
  | .failed | .abort => none

variable {space : ℕ}

theorem Encodes.encodedFrame_eq {headSize : ℕ} {encode : ℕ → List UInt8 → ℕ → Encoded}
    {head body : List UInt8} (h : Encodes headSize encode head body) (hspace : headSize ≤ space) :
    encodedFrame headSize (encode space [] 0) = some (head, body) := by
  have hcut : ((head ++ body).take headSize, (head ++ body).drop headSize) = (head, body) := by
    rw [take_left' h.length_head, drop_left' h.length_head]
  by_cases hfit : headSize + body.length ≤ space
  · simpa [h.fits space hfit, encodedFrame] using hcut
  · rw [h.spills space hspace (by omega), encodedFrame]
    simpa [append_assoc, take_append_drop] using hcut

/-- The bytes still to be written: the rest of the spill and the frames of the
queue. -/
def Downflow.pending (frame : δ → List UInt8 × List UInt8) (st : Downflow δ) : List UInt8 :=
  st.downflowBuf.drop st.downflowBufSentNum ++ st.datas.flatMap fun d => (frame d).1 ++ (frame d).2

def Downflow.Aligned (st : Downflow δ) : Prop :=
  st.downflowBuf = [] ∧ st.downflowBufSentNum = 0 ∨ st.downflowBufSentNum < st.downflowBuf.length

section Stream

variable {encode : EncodeFunction δ} {frame : δ → List UInt8 × List UInt8} {headSize : ℕ}

variable {datas : List δ} {out : List UInt8}

theorem encodeLoop_cons {d : δ} {sentNum sentNum' : ℕ}
    {buf buf' : List UInt8} (h : encode d space buf sentNum = .wrote out buf' sentNum')
    (hne : out ≠ []) :
    encodeLoop encode (d :: datas) space buf sentNum =
      (encodeLoop encode datas (space - out.length) buf' sentNum').prepend out := by
  obtain ⟨b, bytes, rfl⟩ := exists_cons_of_ne_nil hne
  simp only [encodeLoop, h]

theorem encodeLoop_full (hpos : 0 < headSize)
    (h : ∀ d ∈ datas, Encodes headSize (encode d) (frame d).1 (frame d).2) (buf : List UInt8)
    (sentNum : ℕ) : encodeLoop encode datas 0 buf sentNum = .sent [] ⟨buf, sentNum, datas⟩ := by
  cases datas with
  | nil => rfl
  | cons d datas => simp only [encodeLoop, (h d (by simp)).waits 0 buf sentNum hpos]

theorem encodeLoop_stream (hpos : 0 < headSize)
    (h : ∀ d ∈ datas, Encodes headSize (encode d) (frame d).1 (frame d).2) (space : ℕ) :
    ∃ out st, encodeLoop encode datas space [] 0 = .sent out st ∧ st.Aligned ∧
      st.datas ⊆ datas ∧ out ++ st.pending frame = Downflow.pending frame ⟨[], 0, datas⟩ ∧
      (datas ≠ [] → headSize ≤ space → out ≠ []) := by
  induction datas generalizing space with
  | nil => exact ⟨[], ⟨[], 0, []⟩, rfl, .inl ⟨rfl, rfl⟩, by simp, by simp, fun h => absurd rfl h⟩
  | cons d datas ih =>
    have hd := h d (by simp)
    have hrest := fun x hx => h x (mem_cons_of_mem d hx)
    have hhead : (frame d).1 ≠ [] := ne_nil_of_length_pos (hd.length_head ▸ hpos)
    by_cases hsmall : space < headSize
    · refine ⟨[], ⟨[], 0, d :: datas⟩, ?_, .inl ⟨rfl, rfl⟩, by simp, rfl, fun _ hle => ?_⟩
      · simp only [encodeLoop, hd.waits space [] 0 hsmall]
      · omega
    by_cases hfit : headSize + (frame d).2.length ≤ space
    · obtain ⟨out, st, hloop, hal, hsub, hstream, -⟩ :=
        ih hrest (space - ((frame d).1 ++ (frame d).2).length)
      refine ⟨(frame d).1 ++ (frame d).2 ++ out, st, ?_, hal, ?_, ?_, fun _ _ => ?_⟩
      · rw [encodeLoop_cons (hd.fits space hfit) (by simp [hhead]), hloop]
        rfl
      · exact fun x hx => mem_cons_of_mem d (hsub hx)
      · rw [append_assoc, hstream]
        simp [Downflow.pending]
      · simp [hhead]
    · have hspill := hd.spills space (by omega) (by omega)
      have hlen : space - ((frame d).1 ++ (frame d).2.take (space - headSize)).length = 0 := by
        rw [length_append, length_take, hd.length_head]
        omega
      refine ⟨(frame d).1 ++ (frame d).2.take (space - headSize),
        ⟨(frame d).2, space - headSize, datas⟩, ?_, .inr ?_, ?_, ?_, fun _ _ => ?_⟩
      · rw [encodeLoop_cons hspill (by simp [hhead]), hlen, encodeLoop_full hpos hrest]
        simp [Sent.prepend]
      · dsimp only
        omega
      · exact subset_cons_self d datas
      · simp only [Downflow.pending, append_assoc, drop_nil, nil_append, flatMap_cons]
        rw [← append_assoc ((frame d).2.take _), take_append_drop]
      · simp [hhead]

theorem encodeLoop_fits (hpos : 0 < headSize)
    (h : ∀ d ∈ datas, Encodes headSize (encode d) (frame d).1 (frame d).2)
    (hfit : (datas.flatMap fun d => (frame d).1 ++ (frame d).2).length ≤ space) :
    encodeLoop encode datas space [] 0 =
      .sent (datas.flatMap fun d => (frame d).1 ++ (frame d).2) ⟨[], 0, []⟩ := by
  induction datas generalizing space with
  | nil => rfl
  | cons d datas ih =>
    rw [flatMap_cons, length_append] at hfit
    have hd := h d (by simp)
    have hlen : ((frame d).1 ++ (frame d).2).length = headSize + (frame d).2.length := by
      rw [length_append, hd.length_head]
    have hne : (frame d).1 ++ (frame d).2 ≠ [] := ne_nil_of_length_pos (by omega)
    rw [encodeLoop_cons (hd.fits space (by omega)) hne,
      ih (fun e he => h e (mem_cons_of_mem d he)) (by omega)]
    rfl

section

variable (hpos : 0 < headSize) {st : Downflow δ} (hal : st.Aligned)
  (h : ∀ d ∈ st.datas, Encodes headSize (encode d) (frame d).1 (frame d).2)
include hpos hal h

/-- **One call writes a first part of what is pending**, and something of it. -/
theorem downflow_stream (hspace : headSize ≤ space) :
    ∃ out st', st.downflow encode space = .sent out st' ∧ st'.Aligned ∧ st'.datas ⊆ st.datas ∧
      out ++ st'.pending frame = st.pending frame ∧ (st.pending frame ≠ [] → out ≠ []) := by
  obtain ⟨buf, sentNum, datas⟩ := st
  rcases hal with ⟨rfl, rfl⟩ | hlt
  · obtain ⟨out, st, hloop, hal, hsub, hstream, hne⟩ := encodeLoop_stream hpos h space
    refine ⟨out, st, by simpa [Downflow.downflow] using hloop, hal, hsub, hstream, fun hp => ?_⟩
    refine hne (fun hnil => hp ?_) hspace
    simp only at hnil
    simp [Downflow.pending, hnil]
  · dsimp only at hlt h
    have hbuf : 0 < buf.length := by omega
    have hout : buf.drop sentNum ≠ [] := ne_nil_of_length_pos (by rw [length_drop]; omega)
    by_cases hall : buf.length - sentNum ≤ space
    · by_cases heq : space = buf.length - sentNum
      · refine ⟨buf.drop sentNum, ⟨[], 0, datas⟩, ?_, .inl ⟨rfl, rfl⟩, by simp, ?_, fun _ => hout⟩
        · simp [Downflow.downflow, hbuf, Nat.not_le.2 hlt, heq]
        · simp [Downflow.pending]
      · obtain ⟨out, st, hloop, hal, hsub, hstream, -⟩ :=
          encodeLoop_stream hpos h (space - (buf.length - sentNum))
        refine ⟨buf.drop sentNum ++ out, st, ?_, hal, hsub, ?_, fun _ => by simp [hout]⟩
        · simp [Downflow.downflow, hbuf, Nat.not_le.2 hlt, hall, heq, hloop, Sent.prepend]
        · rw [List.append_assoc, hstream]
          simp [Downflow.pending]
    · refine ⟨(buf.drop sentNum).take space, ⟨buf, sentNum + space, datas⟩, ?_, .inr ?_, by simp,
        ?_, fun _ => ?_⟩
      · simp [Downflow.downflow, hbuf, Nat.not_le.2 hlt, hall]
      · dsimp only
        omega
      · simp only [Downflow.pending]
        rw [← drop_drop, ← append_assoc, take_append_drop]
      · refine ne_nil_of_length_pos ?_
        rw [length_take, length_drop]
        omega

/-- **Any calls write a first part of what is pending**, in order and without a
gap; after as many calls as there are bytes nothing is pending. -/
theorem downflows_stream {spaces : List ℕ} (hspaces : ∀ space ∈ spaces, headSize ≤ space) :
    ∃ outs st', st.downflows encode spaces = some (outs, st') ∧ st'.Aligned ∧
      st'.datas ⊆ st.datas ∧ outs.flatten ++ st'.pending frame = st.pending frame ∧
      (st'.pending frame = [] ∨
        (st'.pending frame).length + spaces.length ≤ (st.pending frame).length) := by
  induction spaces generalizing st with
  | nil => exact ⟨[], st, rfl, hal, fun _ h => h, rfl, .inr (by simp)⟩
  | cons space spaces ih =>
    obtain ⟨out, st₁, hout, hal₁, hsub, hstream, hne⟩ :=
      downflow_stream hpos hal h (hspaces space (by simp))
    obtain ⟨outs, st₂, houts, hal₂, hsub₂, hstream₂, hlen⟩ :=
      ih hal₁ (fun d hd => h d (hsub hd)) fun n hn => hspaces n (mem_cons_of_mem _ hn)
    refine ⟨out :: outs, st₂, ?_, hal₂, List.Subset.trans hsub₂ hsub, ?_, ?_⟩
    · simp [Downflow.downflows, hout, houts]
    · rw [flatten_cons, append_assoc, hstream₂, hstream]
    · rcases hlen with hnil | hlen
      · exact .inl hnil
      · by_cases hp : st.pending frame = []
        · rw [hp, append_eq_nil_iff] at hstream
          rw [hstream.2, append_eq_nil_iff] at hstream₂
          exact .inl hstream₂.2
        · have hpos : 0 < out.length := length_pos_iff.2 (hne hp)
          have hsum := congrArg List.length hstream
          rw [length_append] at hsum
          rw [length_cons]
          omega

end

theorem Downflow.pending_queued (frame : δ → List UInt8 × List UInt8) (st : Downflow δ)
    (queued : List δ) : ({ st with datas := st.datas ++ queued } : Downflow δ).pending frame =
      st.pending frame ++ queued.flatMap fun d => (frame d).1 ++ (frame d).2 := by
  simp [Downflow.pending]

theorem serve_stream (hpos : 0 < headSize) {st : Downflow δ} (hal : st.Aligned)
    {calls : List (List δ × ℕ)} (h : ∀ d ∈ st.datas ++ calls.flatMap Prod.fst,
      Encodes headSize (encode d) (frame d).1 (frame d).2)
    (hspaces : ∀ call ∈ calls, headSize ≤ call.2) :
    ∃ outs st', st.serve encode calls = some (outs, st') ∧ st'.Aligned ∧
      st'.datas ⊆ st.datas ++ calls.flatMap Prod.fst ∧
      outs.flatten ++ st'.pending frame = st.pending frame ++
        (calls.flatMap Prod.fst).flatMap fun d => (frame d).1 ++ (frame d).2 := by
  induction calls generalizing st with
  | nil => exact ⟨[], st, rfl, hal, by simp, by simp⟩
  | cons call calls ih =>
    obtain ⟨queued, space⟩ := call
    have hspace : headSize ≤ space := hspaces (queued, space) (by simp)
    have hal₀ : ({ st with datas := st.datas ++ queued } : Downflow δ).Aligned := hal
    have hsplit : st.datas ++ ((queued, space) :: calls).flatMap Prod.fst =
        (st.datas ++ queued) ++ calls.flatMap Prod.fst := by simp
    rw [hsplit] at h
    obtain ⟨out, st₁, hout, hal₁, hsub, hstream, -⟩ :=
      downflow_stream hpos hal₀ (fun d hd => h d (mem_append_left _ hd)) hspace
    have hsub₁ : st₁.datas ++ calls.flatMap Prod.fst ⊆
        (st.datas ++ queued) ++ calls.flatMap Prod.fst :=
      append_subset.2
        ⟨subset_append_of_subset_left _ hsub, subset_append_right _ _⟩
    obtain ⟨outs, st₂, houts, hal₂, hsub₂, hstream₂⟩ :=
      ih hal₁ (fun d hd => h d (hsub₁ hd)) fun call hc => hspaces call (mem_cons_of_mem _ hc)
    refine ⟨out :: outs, st₂, ?_, hal₂, ?_, ?_⟩
    · simp [Downflow.serve, hout, houts]
    · rw [hsplit]
      exact List.Subset.trans hsub₂ hsub₁
    · rw [flatten_cons, append_assoc, hstream₂, ← append_assoc, hstream, Downflow.pending_queued]
      simp

theorem serve_drained (hpos : 0 < headSize) {calls : List (List δ × ℕ)}
    (h : ∀ d ∈ calls.flatMap Prod.fst, Encodes headSize (encode d) (frame d).1 (frame d).2)
    (hspaces : ∀ call ∈ calls, headSize ≤ call.2) {outs : List (List UInt8)} {st : Downflow δ}
    (hserve : Downflow.serve encode ⟨[], 0, []⟩ calls = some (outs, st)) (hdrained : st.Drained) :
    outs.flatten = (calls.flatMap Prod.fst).flatMap fun d => (frame d).1 ++ (frame d).2 := by
  have hnew : (⟨[], 0, []⟩ : Downflow δ).Aligned := .inl ⟨rfl, rfl⟩
  obtain ⟨outs', st', hserve', -, -, hflat⟩ := serve_stream hpos hnew h hspaces
  rw [hserve] at hserve'
  cases hserve'
  simpa [Downflow.pending, hdrained.1, hdrained.2] using hflat

theorem encodeLoop_drop {sentNum : ℕ} {buf : List UInt8}
    {st : Downflow δ} (h : encodeLoop encode datas space buf sentNum = .sent out st) :
    ∃ n, n ≤ datas.length ∧ st.datas = datas.drop n ∧ (out ≠ [] → 0 < n) := by
  induction datas generalizing space sentNum buf out with
  | nil =>
    cases h
    exact ⟨0, Nat.le_refl _, rfl, fun hne => absurd rfl hne⟩
  | cons d datas ih =>
    simp only [encodeLoop] at h
    split at h
    · cases h
    · cases h
    · cases h
      exact ⟨0, zero_le _, rfl, fun hne => absurd rfl hne⟩
    · rename_i b bytes buf' sentNum' _
      cases hrest : encodeLoop encode datas (space - (b :: bytes).length) buf' sentNum' with
      | failed | abort => rw [hrest] at h; cases h
      | sent out' st' =>
        rw [hrest] at h
        cases h
        obtain ⟨n, hn, hdatas, -⟩ := ih hrest
        exact ⟨n + 1, succ_le_succ hn, hdatas, fun _ => succ_pos n⟩

theorem Downflow.downflow_drop {st st' : Downflow δ}
    (h : st.downflow encode space = .sent out st') :
    ∃ n, n ≤ st.datas.length ∧ st'.datas = st.datas.drop n ∧
      (out ≠ [] → 0 < n ∨ st.downflowBuf ≠ []) := by
  unfold Downflow.downflow at h
  dsimp only at h
  split_ifs at h with hbuf hsent hfit heq
  · cases h
    exact ⟨0, zero_le _, rfl, fun _ => .inr (length_pos_iff.1 hbuf)⟩
  · cases hloop : encodeLoop encode st.datas
        (space - (st.downflowBuf.drop st.downflowBufSentNum).length) [] 0 with
    | failed | abort => rw [hloop] at h; cases h
    | sent out' st'' =>
      rw [hloop] at h
      cases h
      obtain ⟨n, hn, hdatas, -⟩ := encodeLoop_drop hloop
      exact ⟨n, hn, hdatas, fun _ => .inr (length_pos_iff.1 hbuf)⟩
  · cases h
    exact ⟨0, zero_le _, rfl, fun _ => .inr (length_pos_iff.1 hbuf)⟩
  · obtain ⟨n, hn, hdatas, hne⟩ := encodeLoop_drop h
    exact ⟨n, hn, hdatas, fun ho => .inl (hne ho)⟩

theorem Downflow.Aligned.drained_iff (hpos : 0 < headSize) {st : Downflow δ} (hal : st.Aligned)
    (hlen : ∀ d ∈ st.datas, (frame d).1.length = headSize) :
    st.Drained ↔ st.pending frame = [] := by
  unfold Downflow.Drained Downflow.pending
  refine ⟨fun ⟨hb, hd⟩ => by simp [hb, hd], fun hp => ?_⟩
  obtain ⟨hbuf, hdatas⟩ := append_eq_nil_iff.1 hp
  constructor
  · rcases hal with ⟨hb, -⟩ | hlt
    · exact hb
    · have := congrArg List.length hbuf
      simp only [length_drop, length_nil] at this
      omega
  · refine eq_nil_iff_forall_not_mem.2 fun d hd => ?_
    have hnil := append_eq_nil_iff.1 (flatMap_eq_nil_iff.1 hdatas d hd)
    have := hlen d hd
    rw [hnil.1, length_nil] at this
    omega

end Stream

end Corpc.Pipeline
