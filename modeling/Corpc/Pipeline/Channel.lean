/-
# One direction of a connection

What lies between a sender and a receiver that are joined by a reliable byte stream: the queue and
the spill of the sender (`Downflow`), the bytes on the way, and the pipeline of the receiver.

`flight` is bookkeeping that no routine reads: the items that were sent and not decoded.  The
decoder takes one off with each call and puts its name on the task (`DecodeFunction.named`).
-/

import Corpc.Pipeline.RoundTrip

namespace Corpc.Pipeline

open Corpc.Basis Wire List Option Deframer

variable {δ κ τ : Type}

def row (frame : δ → List UInt8 × List UInt8) (items : List δ) : List UInt8 :=
  items.flatMap fun d => (frame d).1 ++ (frame d).2

@[simp]
theorem row_nil (frame : δ → List UInt8 × List UInt8) : row frame [] = [] := rfl

@[simp]
theorem row_cons (frame : δ → List UInt8 × List UInt8) (d : δ) (items : List δ) :
    row frame (d :: items) = (frame d).1 ++ (frame d).2 ++ row frame items := rfl

@[simp]
theorem row_append (frame : δ → List UInt8 × List UInt8) (items items' : List δ) :
    row frame (items ++ items') = row frame items ++ row frame items' :=
  flatMap_append

/-- A frame with the right sizes.  Its body may be too long for the receiver. -/
structure Announces (cfg : Config) (frame : List UInt8 × List UInt8) : Prop where
  length_head : frame.1.length = cfg.headSize
  readSize : cfg.readSize frame.1 = frame.2.length

theorem Announces.length_pos {cfg : Config} {frame : List UInt8 × List UInt8}
    (h : Announces cfg frame) : 0 < (frame.1 ++ frame.2).length := by
  have hpos := cfg.headSize_pos
  rw [length_append, h.length_head]
  omega

section Row

variable {cfg : Config} {dec : DecodeFunction κ τ} {frame : δ → List UInt8 × List UInt8}

theorem Deframer.byte_announced {f : List UInt8 × List UInt8} (hf : Announces cfg f)
    {pre rest : List UInt8} {b : UInt8} (hbytes : pre ++ b :: rest = f.1 ++ f.2) {log : Log κ τ}
    {d : Deframer κ τ} (h : Deframer.byte cfg dec ⟨pre, log⟩ b = .more d) :
    rest ≠ [] ∧ d = ⟨pre ++ [b], log⟩ ∨
      rest = [] ∧ ∃ log', log.decode dec f.1 f.2 = .more log' ∧ d = ⟨[], log'⟩ := by
  have hjoin : pre ++ [b] ++ rest = f.1 ++ f.2 := by simpa using hbytes
  have hlen : (pre ++ [b]).length + rest.length = cfg.headSize + f.2.length := by
    rw [← length_append, hjoin, length_append, hf.length_head]
  have hwait : ∀ {n : ℕ}, n ≤ cfg.headSize + f.2.length → (pre ++ [b]).length < n → rest ≠ [] := by
    rintro n hn hlt rfl
    rw [length_nil] at hlen
    omega
  unfold byte check at h
  dsimp only at h
  split_ifs at h with hhead hmax hbody
  · exact .inl ⟨hwait (by omega) hhead, (Flow.more.inj h).symm⟩
  · have hread : cfg.readSize (pre ++ [b]) = f.2.length := by
      rw [← cfg.readSize_append (not_lt.1 hhead) rest, hjoin,
        cfg.readSize_append hf.length_head.ge, hf.readSize]
    rw [hread] at hbody
    exact .inl ⟨hwait le_rfl hbody, (Flow.more.inj h).symm⟩
  · have hread : cfg.readSize (pre ++ [b]) = f.2.length := by
      rw [← cfg.readSize_append (not_lt.1 hhead) rest, hjoin,
        cfg.readSize_append hf.length_head.ge, hf.readSize]
    rw [hread] at hbody
    have hnil : rest = [] := eq_nil_of_length_eq_zero (by omega)
    rw [hnil, append_nil] at hjoin
    rw [hjoin, take_left' hf.length_head, drop_left' hf.length_head] at h
    cases hdec : log.decode dec f.1 f.2 with
    | more log' =>
      rw [hdec] at h
      exact .inr ⟨hnil, log', rfl, (Flow.more.inj h).symm⟩
    | stop r log' =>
      rw [hdec] at h
      cases h

/-- The deframer is inside the first frame of a row, of which `rest` is still to come. -/
structure Deframer.Within (frame : δ → List UInt8 × List UInt8) (items : List δ)
    (rest : List UInt8) (d : Deframer κ τ) : Prop where
  bytes : d.pending ++ rest = row frame items
  begun : ∀ x ∈ items.head?, d.pending.length < ((frame x).1 ++ (frame x).2).length

theorem Deframer.Within.cut {d : Deframer κ τ} {x : δ} {items : List δ} {b : UInt8}
    {rest : List UInt8} (h : d.Within frame (x :: items) (b :: rest)) :
    ∃ left, d.pending ++ b :: left = (frame x).1 ++ (frame x).2 ∧
      rest = left ++ row frame items := by
  have hlt := h.begun x rfl
  have hbytes := h.bytes
  rw [row_cons] at hbytes
  rcases append_eq_append_iff.1 hbytes with ⟨as, hx, hrest⟩ | ⟨as, hx, hrest⟩
  · cases as with
    | nil =>
      rw [hx, append_nil] at hlt
      exact absurd hlt (lt_irrefl _)
    | cons a left =>
      obtain ⟨rfl, rfl⟩ := cons.inj hrest
      exact ⟨left, hx.symm, rfl⟩
  · rw [hx, length_append] at hlt
    omega

/-- **A chunk of a row is a number of decoder calls**, at its first items. -/
theorem Deframer.feed_row {items : List δ} {chunk rest : List UInt8} {d d' : Deframer κ τ}
    (hf : ∀ x ∈ items, Announces cfg (frame x)) (hw : d.Within frame items (chunk ++ rest))
    (h : feed (Deframer.byte cfg dec) d chunk = .more d') :
    ∃ done items', items = done ++ items' ∧ d'.Within frame items' rest ∧
      feed (fun log f => Log.decode dec log f.1 f.2) d.log (done.map frame) = .more d'.log := by
  induction chunk generalizing d items with
  | nil =>
    obtain rfl := Flow.more.inj h
    exact ⟨[], items, rfl, hw, rfl⟩
  | cons b chunk ih =>
    rw [feed_cons] at h
    obtain ⟨d₁, hd₁, hrest⟩ := Flow.bind_eq_more.1 h
    cases items with
    | nil => exact absurd hw.bytes (by simp)
    | cons x items =>
      obtain ⟨left, hx, hleft⟩ := hw.cut
      rcases byte_announced (hf x (by simp)) hx hd₁ with
        ⟨hne, rfl⟩ | ⟨rfl, log', hdec, rfl⟩
      · have hw₁ : Within frame (x :: items) (chunk ++ rest)
            (⟨d.pending ++ [b], d.log⟩ : Deframer κ τ) := by
          refine ⟨by simpa using hw.bytes, fun y hy => ?_⟩
          obtain rfl : x = y := some.inj hy
          have hlen := congrArg List.length hx
          have hpos := length_pos_iff.2 hne
          simp only [length_append, length_cons, length_nil] at hlen ⊢
          omega
        obtain ⟨done, items', heq, hw', hfeed⟩ := ih hf hw₁ hrest
        exact ⟨done, items', heq, hw', hfeed⟩
      · have hw₁ : Within frame items (chunk ++ rest)
            (⟨[], log'⟩ : Deframer κ τ) := by
          refine ⟨by simpa using hleft, fun y hy => ?_⟩
          exact (hf y (mem_cons_of_mem x (mem_of_mem_head? hy))).length_pos
        obtain ⟨done, items', rfl, hw', hfeed⟩ :=
          ih (fun y hy => hf y (mem_cons_of_mem x hy)) hw₁ hrest
        refine ⟨x :: done, items', rfl, hw', ?_⟩
        rw [map_cons, feed_cons, hdec]
        exact hfeed

end Row

def TcpPipeline.begun (p : TcpPipeline κ τ) : List UInt8 :=
  p.headBuf.take p.headNum ++ p.bodyBuf.take p.bodyNum

theorem TcpPipeline.Refines.pending_eq {cfg : Config} {p : TcpPipeline κ τ} {d : Deframer κ τ}
    (h : p.Refines cfg d) : d.pending = p.begun := by
  cases h with
  | head hs hlog hnum hsize hbnum hpend =>
    rw [hpend, TcpPipeline.begun, hbnum, take_zero, append_nil]
  | body hin hlt =>
    rw [hin.pending, TcpPipeline.begun, hin.headNum, ← hin.headBuf, take_length]

def TcpPipeline.setConn (p : TcpPipeline κ τ) (conn : κ) : TcpPipeline κ τ :=
  { p with log := { p.log with conn } }

theorem TcpPipeline.Refines.setConn {cfg : Config} {p : TcpPipeline κ τ} {d : Deframer κ τ}
    (h : p.Refines cfg d) (conn : κ) :
    (p.setConn conn).Refines cfg ⟨d.pending, { d.log with conn }⟩ := by
  cases h with
  | head hs hlog hnum hsize hbnum hpend =>
    exact .head ⟨hs.headBuf, hs.bodyBuf⟩ (by rw [hlog]; rfl) hnum hsize hbnum hpend
  | body hin hlt =>
    exact .body ⟨⟨hin.headBuf, hin.bodyBuf⟩, by rw [hin.log]; rfl, hin.headNum, hin.bodySize,
      hin.bodySize_le, hin.bodyNum_le, hin.pending⟩ hlt

/-- The decoder with the books of a channel: each call takes the first item off, and its
task bears the item's name. -/
def DecodeFunction.named (dec : DecodeFunction κ τ) :
    DecodeFunction (List δ × κ) (Option δ × τ) where
  decode := fun c head body => (dec.decode c.2 head body).map fun r =>
    ((c.1.tail, r.1), r.2.map fun task => (c.1.head?, task))
  isDecodeError := fun c => dec.isDecodeError c.2
  leaves := fun c => dec.leaves c.2
  length_leaves := fun c => dec.length_leaves c.2

theorem Log.decode_eq_more {dec : DecodeFunction κ τ} {log log' : Log κ τ}
    {head body : List UInt8} (h : log.decode dec head body = .more log') :
    ∃ conn task, dec.decode log.conn head body = some (conn, task) ∧
      log' = ⟨conn, log.calls ++ [(head, body)], log.tasks ++ task.toList⟩ := by
  unfold Log.decode at h
  split at h
  · cases h
  · rename_i conn task hdec
    split_ifs at h
    exact ⟨conn, task, hdec, (Flow.more.inj h).symm⟩

theorem Log.decode_named {dec : DecodeFunction κ τ} {log log' : Log (List δ × κ) (Option δ × τ)}
    {head body : List UInt8} (h : log.decode dec.named head body = .more log') :
    ∃ c task, dec.decode log.conn.2 head body = some (c, task) ∧ log'.conn = (log.conn.1.tail, c) ∧
      log'.tasks = log.tasks ++ (task.map (log.conn.1.head?, ·)).toList := by
  obtain ⟨conn, task, hdec, rfl⟩ := Log.decode_eq_more h
  obtain ⟨⟨c, t⟩, hct, heq⟩ := map_eq_some_iff.1 hdec
  obtain ⟨rfl, rfl⟩ := Prod.mk.inj heq
  exact ⟨c, t, hct, rfl, rfl⟩

theorem feed_named {dec : DecodeFunction κ τ} {frame : δ → List UInt8 × List UInt8}
    {P : κ → List (Option δ × τ) → List δ → Prop}
    (hstep : ∀ c tasks d items c' task, P c tasks (d :: items) →
      dec.decode c (frame d).1 (frame d).2 = some (c', task) →
      P c' (tasks ++ (task.map (some d, ·)).toList) items)
    {base tasks : List (Option δ × τ)} {done items : List δ}
    {log log' : Log (List δ × κ) (Option δ × τ)} (hitems : log.conn.1 = done ++ items)
    (htasks : log.tasks = base ++ tasks) (h0 : P log.conn.2 tasks log.conn.1)
    (h : feed (fun log f => Log.decode dec.named log f.1 f.2) log (done.map frame) = .more log') :
    log'.conn.1 = items ∧ ∃ tasks', log'.tasks = base ++ tasks' ∧
      P log'.conn.2 tasks' log'.conn.1 := by
  induction done generalizing log tasks with
  | nil =>
    obtain rfl := Flow.more.inj h
    exact ⟨hitems, tasks, htasks, h0⟩
  | cons d done ih =>
    rw [map_cons, feed_cons] at h
    obtain ⟨log₁, hlog₁, hrest⟩ := Flow.bind_eq_more.1 h
    obtain ⟨c, task, hdec, hconn, htasks₁⟩ := Log.decode_named hlog₁
    have hhead : log.conn.1 = d :: (done ++ items) := hitems
    rw [hhead] at h0 hconn htasks₁
    rw [htasks, append_assoc] at htasks₁
    refine ih (by rw [hconn]; rfl) htasks₁ ?_ hrest
    rw [hconn]
    exact hstep _ _ _ _ _ _ h0 hdec

structure Channel (δ κ τ : Type) where
  down : Downflow δ
  wire : List UInt8
  pipe : TcpPipeline (List δ × κ) (Option δ × τ)

namespace Channel

def new (cfg : Config) (conn : κ) : Channel δ κ τ := ⟨⟨[], 0, []⟩, [], .new cfg ([], conn)⟩

def flight (ch : Channel δ κ τ) : List δ := ch.pipe.log.conn.1

def conn (ch : Channel δ κ τ) : κ := ch.pipe.log.conn.2

def modify (f : κ → κ) (ch : Channel δ κ τ) : Channel δ κ τ :=
  { ch with pipe := ch.pipe.setConn (ch.flight, f ch.conn) }

def send (ch : Channel δ κ τ) (d : δ) : Channel δ κ τ where
  down := { ch.down with datas := ch.down.datas ++ [d] }
  wire := ch.wire
  pipe := ch.pipe.setConn (ch.flight ++ [d], ch.conn)

/-- The sender fills a buffer of `space` bytes and writes it; `none` where an encoder
fails. -/
def downflow (encode : EncodeFunction δ) (ch : Channel δ κ τ) (space : ℕ) :
    Option (Channel δ κ τ) :=
  match ch.down.downflow encode space with
  | .sent out down => some { ch with down, wire := ch.wire ++ out }
  | .failed | .abort => none

/-- The receiver reads `n` bytes, or what there is. -/
def receive (cfg : Config) (dec : DecodeFunction κ τ) (ch : Channel δ κ τ) (n : ℕ) :
    Flow Exit (Channel δ κ τ) :=
  match ch.pipe.upflow cfg dec.named (ch.wire.take n) with
  | .more pipe => .more { ch with wire := ch.wire.drop n, pipe }
  | .stop r pipe => .stop r { ch with wire := ch.wire.drop n, pipe }

def newTasks (ch ch' : Channel δ κ τ) : List (Option δ × τ) :=
  ch'.pipe.log.tasks.drop ch.pipe.log.tasks.length

def bytes (frame : δ → List UInt8 × List UInt8) (ch : Channel δ κ τ) : List UInt8 :=
  ch.pipe.begun ++ (ch.wire ++ ch.down.pending frame)

variable {cfg : Config} {encode : EncodeFunction δ} {frame : δ → List UInt8 × List UInt8}
  {dec : DecodeFunction κ τ} {ch ch' : Channel δ κ τ} {d : δ} {n space : ℕ}

@[simp]
theorem conn_modify (f : κ → κ) : (ch.modify f).conn = f ch.conn := rfl

@[simp]
theorem flight_send : (ch.send d).flight = ch.flight ++ [d] := rfl

/-- **The books are right**: every item in flight has a frame, what is queued will be
encoded to it, and the receiver is inside the first frame of the items in flight. -/
structure Carries (cfg : Config) (encode : EncodeFunction δ)
    (frame : δ → List UInt8 × List UInt8) (ch : Channel δ κ τ) : Prop where
  announces : ∀ d ∈ ch.flight, Announces cfg (frame d)
  encodes : ∀ d ∈ ch.down.datas, Encodes cfg.headSize (encode d) (frame d).1 (frame d).2
  aligned : ch.down.Aligned
  within : ∃ d, ch.pipe.Refines cfg d ∧ d.Within frame ch.flight (ch.wire ++ ch.down.pending frame)

theorem Carries.bytes_eq (h : ch.Carries cfg encode frame) :
    ch.bytes frame = row frame ch.flight := by
  obtain ⟨d, href, hw⟩ := h.within
  rw [bytes, ← href.pending_eq, hw.bytes]

theorem Carries.flight_eq_nil (h : ch.Carries cfg encode frame) (hwire : ch.wire = [])
    (hdown : ch.down.pending frame = []) : ch.flight = [] := by
  obtain ⟨d, href, hw⟩ := h.within
  have hbytes := hw.bytes
  have hbegun := hw.begun
  rw [hwire, hdown, append_nil, append_nil] at hbytes
  cases hfl : ch.flight with
  | nil => rfl
  | cons x items =>
    rw [hfl] at hbytes hbegun
    have hlt := hbegun x rfl
    rw [hbytes, row_cons, length_append] at hlt
    omega

theorem carries_new (cfg : Config) (encode : EncodeFunction δ)
    (frame : δ → List UInt8 × List UInt8) (conn : κ) :
    (new cfg conn : Channel δ κ τ).Carries cfg encode frame where
  announces := fun d hd => absurd hd not_mem_nil
  encodes := fun d hd => absurd hd not_mem_nil
  aligned := .inl ⟨rfl, rfl⟩
  within := ⟨⟨[], ⟨([], conn), [], []⟩⟩, TcpPipeline.refines_new cfg ([], conn), rfl,
    fun x hx => absurd hx (by simp [flight, new, TcpPipeline.new])⟩

theorem Carries.modify (h : ch.Carries cfg encode frame) (f : κ → κ) :
    (ch.modify f).Carries cfg encode frame := by
  obtain ⟨d, href, hw⟩ := h.within
  exact ⟨h.announces, h.encodes, h.aligned, _, href.setConn _, hw.bytes, hw.begun⟩

theorem Carries.send (h : ch.Carries cfg encode frame) (hd : Announces cfg (frame d))
    (henc : Encodes cfg.headSize (encode d) (frame d).1 (frame d).2) :
    (ch.send d).Carries cfg encode frame := by
  obtain ⟨e, href, hw⟩ := h.within
  have hpend : (ch.send d).down.pending frame =
      ch.down.pending frame ++ ((frame d).1 ++ (frame d).2) := by
    simpa [Channel.send] using Downflow.pending_queued frame ch.down [d]
  refine ⟨fun x hx => ?_, fun x hx => ?_, h.aligned, _, href.setConn _, ?_, fun x hx => ?_⟩
  · rcases mem_append.1 hx with hx | hx
    · exact h.announces x hx
    · rwa [mem_singleton.1 hx]
  · rcases mem_append.1 hx with hx | hx
    · exact h.encodes x hx
    · rwa [mem_singleton.1 hx]
  · rw [hpend, flight_send, row_append, ← hw.bytes]
    simp [Channel.send]
  · cases hfl : ch.flight with
    | nil =>
      rw [flight_send, hfl] at hx
      obtain rfl : d = x := some.inj hx
      have hbytes := hw.bytes
      rw [hfl, row_nil, append_eq_nil_iff] at hbytes
      simpa [hbytes.1] using hd.length_pos
    | cons y items =>
      rw [flight_send, hfl] at hx
      exact hw.begun x (by rw [hfl]; exact hx)

theorem Carries.downflow (h : ch.Carries cfg encode frame) (hspace : cfg.headSize ≤ space) :
    ∃ ch', ch.downflow encode space = some ch' ∧ ch'.Carries cfg encode frame ∧
      ch'.pipe = ch.pipe := by
  obtain ⟨e, href, hw⟩ := h.within
  obtain ⟨out, down, hout, hal, hsub, hstream, -⟩ :=
    downflow_stream cfg.headSize_pos h.aligned h.encodes hspace
  refine ⟨{ ch with down, wire := ch.wire ++ out }, by rw [Channel.downflow, hout], ?_, rfl⟩
  refine ⟨h.announces, fun x hx => h.encodes x (hsub hx), hal, e, href, ?_, hw.begun⟩
  rw [append_assoc, hstream]
  exact hw.bytes

theorem Carries.of_downflow (h : ch.Carries cfg encode frame) (hspace : cfg.headSize ≤ space)
    (hs : ch.downflow encode space = some ch') :
    ch'.Carries cfg encode frame ∧ ch'.flight = ch.flight ∧ ch'.conn = ch.conn := by
  obtain ⟨ch₁, hch₁, hcarries, hpipe⟩ := h.downflow hspace
  obtain rfl : ch₁ = ch' := some.inj (hch₁.symm.trans hs)
  exact ⟨hcarries, by rw [flight, hpipe, flight], by rw [conn, hpipe, conn]⟩

/-- **What a chunk does to a channel**: it keeps every `P` that a decoder call at the first item
keeps. -/
theorem Carries.receive {P : κ → List (Option δ × τ) → List δ → Prop}
    (h : ch.Carries cfg encode frame) (hrec : ch.receive cfg dec n = .more ch')
    (h0 : P ch.conn [] ch.flight) (hstep : ∀ c tasks d items c' task, P c tasks (d :: items) →
      dec.decode c (frame d).1 (frame d).2 = some (c', task) →
      P c' (tasks ++ (task.map (some d, ·)).toList) items) :
    ch'.Carries cfg encode frame ∧ P ch'.conn (ch.newTasks ch') ch'.flight := by
  obtain ⟨e, href, hw⟩ := h.within
  have hrel : Flow.Rel (TcpPipeline.Refines cfg) (fun p d => p.log = d.log)
      (ch.pipe.upflow cfg dec.named (ch.wire.take n))
      (feed (byte cfg dec.named) e (ch.wire.take n)) := upflow_agrees href _
  have hw₀ : e.Within frame ch.flight
      (ch.wire.take n ++ (ch.wire.drop n ++ ch.down.pending frame)) := by
    rwa [← append_assoc, take_append_drop]
  unfold Channel.receive at hrec
  generalize hup : ch.pipe.upflow cfg dec.named (ch.wire.take n) = x at hrec hrel
  generalize hfeed : feed (byte cfg dec.named) e (ch.wire.take n) = y at hrel
  cases hrel with
  | stop hlog => cases hrec
  | @more p e' href' =>
    obtain rfl := Flow.more.inj hrec
    obtain ⟨done, items, hsplit, hw', hdone⟩ := feed_row h.announces hw₀ hfeed
    rw [← href.log_eq, ← href'.log_eq] at hdone
    obtain ⟨hflight, tasks, htasks, hP⟩ :=
      feed_named hstep hsplit (append_nil _).symm h0 hdone
    refine ⟨⟨fun x hx => ?_, h.encodes, h.aligned, e', href', ?_⟩, ?_⟩
    · refine h.announces x ?_
      rw [hsplit, ← hflight]
      exact mem_append_right done hx
    · rw [← hflight] at hw'
      exact hw'
    · have hnew : ch.newTasks { ch with wire := ch.wire.drop n, pipe := p } = tasks := by
        rw [newTasks, htasks, drop_left]
      rw [hnew]
      exact hP

theorem downflow_fits {items : List δ} (hdown : ch.down = ⟨[], 0, items⟩)
    (h : ∀ d ∈ items, Encodes cfg.headSize (encode d) (frame d).1 (frame d).2)
    (hfit : (row frame items).length ≤ space) :
    ch.downflow encode space =
      some { ch with down := ⟨[], 0, []⟩, wire := ch.wire ++ row frame items } := by
  have hsent : ch.down.downflow encode space = .sent (row frame items) ⟨[], 0, []⟩ := by
    rw [hdown]
    exact encodeLoop_fits cfg.headSize_pos h hfit
  rw [Channel.downflow, hsent]

theorem exists_receive {items : List δ} {log : Log (List δ × κ) (Option δ × τ)}
    (hpipe : ch.pipe.Refines cfg ⟨[], log⟩) (hdec : dec.NoError)
    (hf : ∀ d ∈ items, Framed cfg (frame d)) (hwire : ch.wire.take n = row frame items) :
    ∃ pipe, ch.receive cfg dec n = .more { ch with wire := ch.wire.drop n, pipe } := by
  have hnamed : DecodeFunction.NoError (dec.named : DecodeFunction (List δ × κ) _) := by
    intro c head body
    obtain ⟨c', task, hd, herr⟩ := hdec c.2 head body
    exact ⟨(c.1.tail, c'), task.map fun t => (c.1.head?, t),
      by simp [DecodeFunction.named, hd], herr⟩
  have hrel : Flow.Rel (TcpPipeline.Refines cfg) (fun p d => p.log = d.log)
      (ch.pipe.upflow cfg dec.named (ch.wire.take n))
      (feed (byte cfg dec.named) ⟨[], log⟩ (ch.wire.take n)) := upflow_agrees hpipe _
  obtain ⟨log', hfeed, -⟩ := Deframer.feed_frames hnamed hf log
  unfold Channel.receive
  rw [hwire] at hrel ⊢
  rw [row, hfeed] at hrel
  rw [row]
  generalize ch.pipe.upflow cfg dec.named _ = x at hrel ⊢
  cases hrel with
  | @more pipe d _ => exact ⟨pipe, rfl⟩

/-- **The way of one item** through a new channel, in one buffer and one chunk: nothing of it
is left but what the decoder makes of it. -/
theorem exists_receive_one (conn : κ) (hdec : dec.NoError) (hf : Framed cfg (frame d))
    (henc : Encodes cfg.headSize (encode d) (frame d).1 (frame d).2)
    (hspace : (row frame [d]).length ≤ space) (hn : (row frame [d]).length ≤ n) :
    ∃ ch ch' : Channel δ κ τ, (send (new cfg conn) d).downflow encode space = some ch ∧
      ch.receive cfg dec n = .more ch' ∧ ch'.flight = [] ∧
      ∃ task, dec.decode conn (frame d).1 (frame d).2 = some (ch'.conn, task) ∧
        ch.newTasks ch' = (task.map (some d, ·)).toList := by
  have hann : Announces cfg (frame d) := ⟨hf.length_head, hf.readSize⟩
  have hitem : ∀ x ∈ [d], Encodes cfg.headSize (encode x) (frame x).1 (frame x).2 := fun x hx => by
    rwa [mem_singleton.1 hx]
  have hhead : cfg.headSize ≤ space := by
    refine le_trans ?_ hspace
    simp [hf.length_head]
  have hcarries : (send (new cfg conn) d : Channel δ κ τ).Carries cfg encode frame :=
    (carries_new cfg encode frame conn).send hann henc
  have hsent : (send (new cfg conn) d : Channel δ κ τ).downflow encode space =
      some { send (new cfg conn) d with down := ⟨[], 0, []⟩, wire := [] ++ row frame [d] } :=
    downflow_fits rfl hitem hspace
  set ch : Channel δ κ τ :=
    { send (new cfg conn) d with down := ⟨[], 0, []⟩, wire := [] ++ row frame [d] } with hch
  have hcarries₁ : ch.Carries cfg encode frame := (hcarries.of_downflow hhead hsent).1
  have hwire : ch.wire.take n = row frame [d] := take_of_length_le hn
  obtain ⟨pipe, hrec⟩ := exists_receive
    ((TcpPipeline.refines_new cfg ([], conn)).setConn ([d], conn)) hdec
    (fun x hx => by rwa [mem_singleton.1 hx]) hwire
  obtain ⟨hcarries₂, hP⟩ := hcarries₁.receive
    (P := fun c tasks flight => (flight = [d] ∧ tasks = [] ∧ c = conn) ∨
      flight = [] ∧ ∃ task, dec.decode conn (frame d).1 (frame d).2 = some (c, task) ∧
        tasks = (task.map (some d, ·)).toList) hrec (.inl ⟨rfl, rfl, rfl⟩)
    fun c tasks x items c' task hP hx => by
      rcases hP with ⟨heq, rfl, rfl⟩ | ⟨hnil, -⟩
      · obtain ⟨rfl, rfl⟩ := cons.inj heq
        exact .inr ⟨rfl, task, hx, rfl⟩
      · cases hnil
  have hflight := hcarries₂.flight_eq_nil (drop_eq_nil_of_le hn) rfl
  refine ⟨ch, _, hsent, hrec, hflight, ?_⟩
  rcases hP with ⟨hone, -, -⟩ | ⟨-, task, htask, hnew⟩
  · rw [hflight] at hone
    cases hone
  · exact ⟨task, htask, hnew⟩

end Channel

end Corpc.Pipeline
