/-
# A call of `upflow`, block by block

The receiver thread is in `upflow` while other threads work on the same connection.  `Upflow` is a
pipeline that can be looked at between the blocks of a call.
-/

import Corpc.Pipeline.Replay

namespace Corpc.Pipeline

open Corpc.Basis Wire List Nat

variable {κ τ : Type}

/-- What a call of `decodeFun_` gives to the worker. -/
def DecodeFunction.offers (dec : DecodeFunction κ τ) (c : κ) (head body : List UInt8) : Option τ :=
  match dec.decode c head body with
  | none => none
  | some (c', task) => if dec.isDecodeError c' then none else task

theorem Log.tasks_decode (dec : DecodeFunction κ τ) (log : Log κ τ) (head body : List UInt8) :
    (log.decode dec head body).state.tasks =
      log.tasks ++ (dec.offers log.conn head body).toList := by
  unfold Log.decode DecodeFunction.offers
  cases dec.decode log.conn head body with
  | none => exact (append_nil _).symm
  | some r =>
    dsimp only
    split_ifs
    · exact (append_nil _).symm
    · rfl

def wireBytes (frames : List (List UInt8 × List UInt8)) : List UInt8 :=
  frames.flatMap fun f => f.1 ++ f.2

theorem wireBytes_decode (dec : DecodeFunction κ τ) (log : Log κ τ) (head body : List UInt8) :
    wireBytes (log.decode dec head body).state.calls = wireBytes log.calls ++ (head ++ body) := by
  rw [Log.calls_decode, wireBytes, flatMap_append, flatMap_singleton]
  rfl

/-- What a block does in a state `s`, where `held` are the bytes that were not decoded yet, `Placed`
is kept within a call and `Idle` is kept between two calls. -/
inductive BlockDoes (dec : DecodeFunction κ τ) {σ : Type} (log : σ → Log κ τ)
    (held : σ → List UInt8) (Placed Idle : σ → Prop) (s : σ) : Flow Exit σ → Prop
  | quiet {s' : σ} (hlog : log s' = log s) (hheld : held s' = held s) (h : Placed s') :
      BlockDoes dec log held Placed Idle s (.more s')
  | returns {s' : σ} (hlog : log s' = log s) (hheld : held s' = held s) (h : Idle s') :
      BlockDoes dec log held Placed Idle s (.stop .returned s')
  | gives {r : Exit} {s' : σ} (hr : r ≠ .returned) (hlog : log s' = log s) :
      BlockDoes dec log held Placed Idle s (.stop r s')
  | decodes {head body : List UInt8} {s' : σ} (hheld : held s = head ++ body ++ held s')
      (hdec : (log s).decode dec head body = .more (log s')) (h : Placed s') :
      BlockDoes dec log held Placed Idle s (.more s')
  | fails {head body rest : List UInt8} {r : Exit} {s' : σ} (hheld : held s = head ++ body ++ rest)
      (hdec : (log s).decode dec head body = .stop r (log s')) :
      BlockDoes dec log held Placed Idle s (.stop r s')

/-- A pipeline between the blocks of `upflow`, on inputs of type `β`.  `bytes` are those of an input
that belong to frames. -/
structure Upflow (dec : DecodeFunction κ τ) where
  σ : Type
  β : Type
  new : κ → σ
  enter : σ → β → σ
  block : σ → Flow Exit σ
  log : σ → Log κ τ
  setLog : σ → Log κ τ → σ
  bytes : β → List UInt8
  held : σ → List UInt8
  Placed : σ → Prop
  Idle : σ → Prop
  log_new : ∀ c, log (new c) = ⟨c, [], []⟩
  held_new : ∀ c, held (new c) = []
  idle_new : ∀ c, Idle (new c)
  log_enter : ∀ s x, log (enter s x) = log s
  held_enter : ∀ s x, Idle s → held (enter s x) = held s ++ bytes x
  placed_enter : ∀ s x, Idle s → Placed (enter s x)
  log_setLog : ∀ s l, log (setLog s l) = l
  held_setLog : ∀ s l, held (setLog s l) = held s
  placed_setLog : ∀ s l, Placed s → Placed (setLog s l)
  idle_setLog : ∀ s l, Idle s → Idle (setLog s l)
  does : ∀ s, Placed s → BlockDoes dec log held Placed Idle s (block s)

theorem take_of_memcpy {dst src dst' : List UInt8} {o : ℕ} (h : memcpy dst o src = some dst') :
    dst'.take (o + src.length) = dst.take o ++ src := by
  have hfit : o + src.length ≤ dst.length := by
    unfold memcpy at h
    split_ifs at h with hfit
    exact hfit
  obtain ⟨dst'', hcpy, -, htake⟩ := memcpy_spec hfit
  rw [h] at hcpy
  rw [Option.some.inj hcpy]
  exact htake

def Cursor.held (c : Cursor κ τ) : List UInt8 :=
  c.pipe.headBuf.take c.pipe.headNum ++ c.pipe.bodyBuf.take c.pipe.bodyNum ++ c.buf

/-- Where a call is.  The head is complete behind its block, the body is complete before the
decoder, and there is nothing of a body as long as the head is not complete. -/
structure Cursor.Placed (cfg : Config) (c : Cursor κ τ) : Prop where
  bounded : c.pipe.Bounded cfg
  head : c.block ≠ .head → c.pipe.headNum = cfg.headSize
  body : c.pipe.headNum < cfg.headSize → c.pipe.bodyNum = 0
  decode : c.block = .decode → c.pipe.bodyNum = c.pipe.bodySize

structure Cursor.Idle (cfg : Config) (c : Cursor κ τ) : Prop extends c.Placed cfg where
  block : c.block = .head
  buf : c.buf = []

section Tcp

variable {cfg : Config} {dec : DecodeFunction κ τ} {c : Cursor κ τ}

theorem Cursor.Idle.enter (h : c.Idle cfg) (buf : List UInt8) :
    ({ c with block := .head, buf } : Cursor κ τ).Placed cfg :=
  ⟨h.bounded, fun hb => absurd rfl hb, h.body, nofun⟩

theorem Cursor.Idle.held_enter (h : c.Idle cfg) (buf : List UInt8) :
    ({ c with block := .head, buf } : Cursor κ τ).held = c.held ++ buf := by
  unfold Cursor.held
  rw [h.buf, append_nil]

theorem Cursor.idle_of_returned {p : TcpPipeline κ τ} (hb : p.Bounded cfg)
    (hbody : p.headNum < cfg.headSize → p.bodyNum = 0) :
    (⟨.head, p, []⟩ : Cursor κ τ).Idle cfg :=
  ⟨⟨hb, fun h => absurd rfl h, hbody, nofun⟩, rfl, rfl⟩

section Blocks

variable {p : TcpPipeline κ τ} {buf : List UInt8}

theorem upflowStep_head_does (h : (⟨.head, p, buf⟩ : Cursor κ τ).Placed cfg) :
    BlockDoes dec (fun c => c.pipe.log) Cursor.held (Cursor.Placed cfg) (Cursor.Idle cfg)
      ⟨.head, p, buf⟩ (upflowStep cfg dec ⟨.head, p, buf⟩) := by
  have hb := h.bounded
  have hbody := h.body
  have hheld : (⟨.head, p, buf⟩ : Cursor κ τ).held =
      p.headBuf.take p.headNum ++ p.bodyBuf.take p.bodyNum ++ buf := rfl
  simp only [upflowStep]
  split_ifs with hnil hlt hneed
  · rw [hnil]
    exact .returns rfl rfl (Cursor.idle_of_returned hb hbody)
  · have hlen : (buf.take (cfg.headSize - p.headNum)).length = cfg.headSize - p.headNum := by
      rw [length_take]
      omega
    split
    · exact .gives (by rintro ⟨⟩) rfl
    · rename_i headBuf hcpy
      have htake := take_of_memcpy hcpy
      rw [hlen, show p.headNum + (cfg.headSize - p.headNum) = cfg.headSize by omega] at htake
      refine .quiet rfl ?_ ⟨⟨⟨(length_of_memcpy hcpy).trans hb.headBuf, hb.bodyBuf⟩, le_rfl,
        hb.bodyNum, hb.bodySize⟩, fun _ => rfl, fun hlt => absurd hlt (lt_irrefl _), by rintro ⟨⟩⟩
      rw [hheld, hbody hlt]
      simp only [Cursor.held, htake, take_zero, append_nil, append_assoc, take_append_drop]
  · split
    · exact .gives (by rintro ⟨⟩) rfl
    · rename_i headBuf hcpy
      refine .returns rfl ?_ (Cursor.idle_of_returned ⟨⟨(length_of_memcpy hcpy).trans hb.headBuf,
        hb.bodyBuf⟩, by dsimp only; omega, hb.bodyNum, hb.bodySize⟩ fun _ => hbody hlt)
      rw [hheld, hbody hlt]
      simp only [Cursor.held, take_of_memcpy hcpy, take_zero, append_nil]
  · have hfull : p.headNum = cfg.headSize := le_antisymm hb.headNum (not_lt.1 hlt)
    exact .quiet rfl rfl ⟨hb, fun _ => hfull, hbody, by rintro ⟨⟩⟩

theorem upflowStep_size_does (h : (⟨.size, p, buf⟩ : Cursor κ τ).Placed cfg) :
    BlockDoes dec (fun c => c.pipe.log) Cursor.held (Cursor.Placed cfg) (Cursor.Idle cfg)
      ⟨.size, p, buf⟩ (upflowStep cfg dec ⟨.size, p, buf⟩) := by
  have hb := h.bounded
  have hfull : p.headNum = cfg.headSize := h.head (by rintro ⟨⟩)
  simp only [upflowStep]
  split_ifs with hzero hbig
  · exact .gives (by rintro ⟨⟩) rfl
  · have hnum : p.bodyNum = 0 := le_zero.1 (hzero ▸ hb.bodyNum)
    exact .quiet rfl rfl ⟨⟨⟨hb.headBuf, hb.bodyBuf⟩, hb.headNum, hnum.trans_le (zero_le _),
      not_lt.1 hbig⟩, fun _ => hfull, h.body, by rintro ⟨⟩⟩
  · exact .quiet rfl rfl ⟨hb, fun _ => hfull, h.body, by rintro ⟨⟩⟩

theorem upflowStep_body_does (h : (⟨.body, p, buf⟩ : Cursor κ τ).Placed cfg) :
    BlockDoes dec (fun c => c.pipe.log) Cursor.held (Cursor.Placed cfg) (Cursor.Idle cfg)
      ⟨.body, p, buf⟩ (upflowStep cfg dec ⟨.body, p, buf⟩) := by
  have hb := h.bounded
  have hfull : p.headNum = cfg.headSize := h.head (by rintro ⟨⟩)
  have hhead : ∀ {n : ℕ}, p.headNum < cfg.headSize → n = 0 := fun hlt => absurd hfull hlt.ne
  have hheld : (⟨.body, p, buf⟩ : Cursor κ τ).held =
      p.headBuf.take p.headNum ++ p.bodyBuf.take p.bodyNum ++ buf := rfl
  simp only [upflowStep]
  split_ifs with hlt hneed
  · have hlen : (buf.take (p.bodySize - p.bodyNum)).length = p.bodySize - p.bodyNum := by
      rw [length_take]
      omega
    split
    · exact .gives (by rintro ⟨⟩) rfl
    · rename_i bodyBuf hcpy
      have htake := take_of_memcpy hcpy
      rw [hlen, show p.bodyNum + (p.bodySize - p.bodyNum) = p.bodySize by omega] at htake
      refine .quiet rfl ?_ ⟨⟨⟨hb.headBuf, (length_of_memcpy hcpy).trans hb.bodyBuf⟩, hb.headNum,
        le_rfl, hb.bodySize⟩, fun _ => hfull, hhead, fun _ => rfl⟩
      rw [hheld]
      simp only [Cursor.held, htake, append_assoc, take_append_drop]
  · split
    · exact .gives (by rintro ⟨⟩) rfl
    · rename_i bodyBuf hcpy
      refine .returns rfl ?_ (Cursor.idle_of_returned ⟨⟨hb.headBuf,
        (length_of_memcpy hcpy).trans hb.bodyBuf⟩, hb.headNum, by dsimp only; omega,
        hb.bodySize⟩ hhead)
      rw [hheld]
      simp only [Cursor.held, take_of_memcpy hcpy, append_assoc, append_nil]
  · have hnum : p.bodyNum = p.bodySize := le_antisymm hb.bodyNum (not_lt.1 hlt)
    exact .quiet rfl rfl ⟨hb, fun _ => hfull, h.body, fun _ => hnum⟩

theorem upflowStep_decode_does (h : (⟨.decode, p, buf⟩ : Cursor κ τ).Placed cfg) :
    BlockDoes dec (fun c => c.pipe.log) Cursor.held (Cursor.Placed cfg) (Cursor.Idle cfg)
      ⟨.decode, p, buf⟩ (upflowStep cfg dec ⟨.decode, p, buf⟩) := by
  have hb := h.bounded
  have hheld : (⟨.decode, p, buf⟩ : Cursor κ τ).held =
      p.headBuf ++ p.bodyBuf.take p.bodySize ++ buf := by
    have hfull : p.headNum = cfg.headSize := h.head (by rintro ⟨⟩)
    have hnum : p.bodyNum = p.bodySize := h.decode rfl
    unfold Cursor.held
    dsimp only
    rw [hfull, hnum, take_of_length_le hb.headBuf.le]
  simp only [upflowStep]
  split
  · rename_i r log hdec
    exact .fails hheld hdec
  · rename_i log hdec
    refine .decodes (hheld.trans ?_) hdec ⟨⟨⟨hb.headBuf, ?_⟩, zero_le _, le_rfl,
      zero_le _⟩, fun hne => absurd rfl hne, fun _ => rfl, by rintro ⟨⟩⟩
    · rfl
    · dsimp only
      rw [length_append, dec.length_leaves, ← length_append, take_append_drop, hb.bodyBuf]

end Blocks

/-- **What a block of the loop does.** -/
theorem upflowStep_does (h : c.Placed cfg) :
    BlockDoes dec (fun c => c.pipe.log) Cursor.held (Cursor.Placed cfg) (Cursor.Idle cfg) c
      (upflowStep cfg dec c) := by
  obtain ⟨block, p, buf⟩ := c
  cases block with
  | head => exact upflowStep_head_does h
  | size => exact upflowStep_size_does h
  | body => exact upflowStep_body_does h
  | decode => exact upflowStep_decode_does h

def Cursor.setLog (c : Cursor κ τ) (log : Log κ τ) : Cursor κ τ :=
  { c with pipe := { c.pipe with log } }

theorem Cursor.Placed.setLog (h : c.Placed cfg) (log : Log κ τ) : (c.setLog log).Placed cfg :=
  ⟨⟨⟨h.bounded.headBuf, h.bounded.bodyBuf⟩, h.bounded.headNum, h.bounded.bodyNum,
    h.bounded.bodySize⟩, h.head, h.body, h.decode⟩

theorem Cursor.Idle.setLog (h : c.Idle cfg) (log : Log κ τ) : (c.setLog log).Idle cfg :=
  ⟨h.toPlaced.setLog log, h.block, h.buf⟩

theorem Cursor.idle_new (cfg : Config) (conn : κ) :
    (⟨.head, .new cfg conn, []⟩ : Cursor κ τ).Idle cfg :=
  Cursor.idle_of_returned (TcpPipeline.refines_new cfg conn).bounded fun _ => rfl

end Tcp

/-- `TcpPipeline` between the blocks of `upflow`. -/
def tcpUpflow (cfg : Config) (dec : DecodeFunction κ τ) : Upflow dec where
  σ := Cursor κ τ
  β := List UInt8
  new := fun conn => ⟨.head, .new cfg conn, []⟩
  enter := fun c buf => { c with block := .head, buf }
  block := upflowStep cfg dec
  log := fun c => c.pipe.log
  setLog := Cursor.setLog
  bytes := id
  held := Cursor.held
  Placed := Cursor.Placed cfg
  Idle := Cursor.Idle cfg
  log_new := fun _ => rfl
  held_new := fun _ => rfl
  idle_new := Cursor.idle_new cfg
  log_enter := fun _ _ => rfl
  held_enter := fun _ buf h => h.held_enter buf
  placed_enter := fun _ buf h => h.enter buf
  log_setLog := fun _ _ => rfl
  held_setLog := fun _ _ => rfl
  placed_setLog := fun _ log h => h.setLog log
  idle_setLog := fun _ log h => h.setLog log
  does := fun _ h => upflowStep_does h

/-- Where a call of `KcpPipeline::upflow` is: before the test for a handshake, before `kcpRecv` with
the packages it will return, or in the loop. -/
inductive KcpBlock
  | handshake (input : KcpInput)
  | recv (packages : List (List UInt8))
  | loop (packages : List (List UInt8))

/-- A call of `KcpPipeline::upflow` between two blocks. -/
structure KcpCursor (κ τ : Type) where
  block : KcpBlock
  cursor : Cursor κ τ
  dataBuf : List UInt8

/-- One block of `KcpPipeline::upflow`. -/
def kcpStep (cfg : Config) (dec : DecodeFunction κ τ) (c : KcpCursor κ τ) :
    Flow Exit (KcpCursor κ τ) :=
  match c.block with
  | .handshake input =>
    if input.isHandshake then
      if input.replyFails then .stop .refused c else .stop .returned { c with block := .recv [] }
    else .more { c with block := .recv input.packages }
  | .recv [] => .stop .returned c
  | .recv (package :: packages) =>
    match memcpy c.dataBuf 0 package with
    | none => .stop .overrun c
    | some dataBuf =>
      .more ⟨.loop packages, ⟨.head, c.cursor.pipe, dataBuf.take package.length⟩, dataBuf⟩
  | .loop packages =>
    match upflowStep cfg dec c.cursor with
    | .more cursor => .more { c with cursor }
    | .stop .returned cursor => .more { c with block := .recv packages, cursor }
    | .stop r cursor => .stop r { c with cursor }

def KcpBlock.bytes : KcpBlock → List UInt8
  | .handshake input => input.data
  | .recv packages | .loop packages => packages.flatten

def KcpCursor.held (c : KcpCursor κ τ) : List UInt8 := c.cursor.held ++ c.block.bytes

def KcpCursor.Placed (cfg : Config) (c : KcpCursor κ τ) : Prop :=
  match c.block with
  | .handshake _ | .recv _ => c.cursor.Idle cfg
  | .loop _ => c.cursor.Placed cfg

def KcpCursor.Idle (cfg : Config) (c : KcpCursor κ τ) : Prop :=
  c.block = .recv [] ∧ c.cursor.Idle cfg

section Kcp

variable {cfg : Config} {dec : DecodeFunction κ τ} {c : KcpCursor κ τ}

theorem kcpStep_loop_does {cursor : Cursor κ τ} {dataBuf : List UInt8}
    {packages : List (List UInt8)} (h : cursor.Placed cfg) :
    BlockDoes dec (fun c => c.cursor.pipe.log) KcpCursor.held (KcpCursor.Placed cfg)
      (KcpCursor.Idle cfg) ⟨.loop packages, cursor, dataBuf⟩
      (kcpStep cfg dec ⟨.loop packages, cursor, dataBuf⟩) := by
  have hdoes := @upflowStep_does κ τ cfg dec cursor h
  simp only [kcpStep]
  revert hdoes
  generalize upflowStep cfg dec cursor = x
  intro hdoes
  cases hdoes with
  | quiet hlog hheld h | returns hlog hheld h =>
    refine .quiet hlog ?_ h
    exact congrArg (· ++ packages.flatten) hheld
  | @gives r s' hr hlog =>
    cases r with
    | returned => exact absurd rfl hr
    | refused | aborted | overrun | spinning => exact .gives nofun hlog
  | @decodes head body s' hheld hdec h =>
    refine .decodes ?_ hdec h
    show cursor.held ++ packages.flatten = head ++ body ++ (s'.held ++ packages.flatten)
    rw [hheld, append_assoc]
  | @fails head body rest r s' hheld hdec =>
    have hbytes : cursor.held ++ packages.flatten = head ++ body ++ (rest ++ packages.flatten) := by
      rw [hheld, append_assoc]
    rcases Log.reason_of_decode hdec with rfl | rfl <;> exact .fails hbytes hdec

/-- **What a block of `KcpPipeline::upflow` does.** -/
theorem kcpStep_does (h : c.Placed cfg) :
    BlockDoes dec (fun c => c.cursor.pipe.log) KcpCursor.held (KcpCursor.Placed cfg)
      (KcpCursor.Idle cfg) c (kcpStep cfg dec c) := by
  obtain ⟨block, cursor, dataBuf⟩ := c
  cases block with
  | handshake input =>
    have hidle : cursor.Idle cfg := h
    simp only [kcpStep]
    split_ifs with hshake hfails
    · exact .gives nofun rfl
    · refine .returns rfl ?_ ⟨rfl, hidle⟩
      simp [KcpCursor.held, KcpBlock.bytes, KcpInput.data, hshake]
    · refine .quiet rfl ?_ hidle
      simp [KcpCursor.held, KcpBlock.bytes, KcpInput.data, hshake]
  | recv packages =>
    have hidle : cursor.Idle cfg := h
    cases packages with
    | nil => exact .returns rfl rfl ⟨rfl, hidle⟩
    | cons package packages =>
      simp only [kcpStep]
      split
      · exact .gives nofun rfl
      · rename_i dataBuf' hcpy
        have htake : dataBuf'.take package.length = package := by
          have htake := take_of_memcpy hcpy
          rwa [zero_add, take_zero, nil_append] at htake
        obtain ⟨block, p, buf⟩ := cursor
        obtain rfl : buf = [] := hidle.buf
        refine .quiet rfl ?_ (hidle.enter _)
        simp [KcpCursor.held, KcpBlock.bytes, Cursor.held, htake]
  | loop packages => exact kcpStep_loop_does h

end Kcp

/-- `KcpPipeline` between the blocks of `upflow`. -/
def kcpUpflow (cfg : Config) (dec : DecodeFunction κ τ) : Upflow dec where
  σ := KcpCursor κ τ
  β := KcpInput
  new := fun conn => ⟨.recv [], ⟨.head, .new cfg conn, []⟩, List.replicate maxKcpPackageSize 0⟩
  enter := fun c input => { c with block := .handshake input }
  block := kcpStep cfg dec
  log := fun c => c.cursor.pipe.log
  setLog := fun c log => { c with cursor := c.cursor.setLog log }
  bytes := KcpInput.data
  held := KcpCursor.held
  Placed := KcpCursor.Placed cfg
  Idle := KcpCursor.Idle cfg
  log_new := fun _ => rfl
  held_new := fun _ => rfl
  idle_new := fun conn => ⟨rfl, Cursor.idle_new cfg conn⟩
  log_enter := fun _ _ => rfl
  held_enter := fun c input h => by
    have hnil : c.held = c.cursor.held := by
      rw [KcpCursor.held, h.1]
      exact append_nil _
    rw [hnil]
    rfl
  placed_enter := fun _ _ h => h.2
  log_setLog := fun _ _ => rfl
  held_setLog := fun _ _ => rfl
  placed_setLog := fun c log h => by
    obtain ⟨block, cursor, dataBuf⟩ := c
    cases block with
    | handshake input | recv packages => exact Cursor.Idle.setLog h log
    | loop packages => exact Cursor.Placed.setLog h log
  idle_setLog := fun _ log h => ⟨h.1, h.2.setLog log⟩
  does := fun _ h => kcpStep_does h

section Call

variable {cfg : Config} {dec : DecodeFunction κ τ}

/-- The end of a call: the pipeline goes on if it returned `true`. -/
def closeKcpCall : Flow Exit (KcpCursor κ τ) → Flow Exit (KcpPipeline κ τ)
  | .stop .returned c => .more ⟨c.cursor.pipe, c.dataBuf⟩
  | .stop r c => .stop r ⟨c.cursor.pipe, c.dataBuf⟩
  | .more c => .stop .spinning ⟨c.cursor.pipe, c.dataBuf⟩

variable {cursor : Cursor κ τ}

theorem loop_kcpStep (packages : List (List UInt8)) (dataBuf : List UInt8) {n : ℕ}
    {cursor' : Cursor κ τ} {r : Exit} (h : loop (upflowStep cfg dec) n cursor = .stop r cursor') :
    ∃ m, loop (kcpStep cfg dec) m ⟨.loop packages, cursor, dataBuf⟩ =
      if r = .returned then .more ⟨.recv packages, cursor', dataBuf⟩
      else .stop r ⟨.loop packages, cursor', dataBuf⟩ := by
  induction n generalizing cursor with
  | zero => cases h
  | succ n ih =>
    rw [loop_succ] at h
    cases hstep : upflowStep cfg dec cursor with
    | more cursor₁ =>
      rw [hstep] at h
      obtain ⟨m, hm⟩ := ih h
      refine ⟨m + 1, ?_⟩
      rw [loop_succ, ← hm]
      simp only [kcpStep, hstep, Flow.more_bind]
    | stop r₁ cursor₁ =>
      rw [hstep] at h
      cases h
      refine ⟨1, ?_⟩
      rw [loop_succ]
      cases r <;> simp [kcpStep, hstep]

variable {k : KcpPipeline κ τ}

theorem package_of_loop {package dataBuf : List UInt8} {r : Exit}
    (hcpy : memcpy k.dataBuf 0 package = some dataBuf)
    (hloop : loop (upflowStep cfg dec) (4 * (dataBuf.take package.length).length + 4)
      ⟨.head, k.pipe, dataBuf.take package.length⟩ = .stop r cursor) :
    k.package cfg dec package =
      if r = .returned then .more ⟨cursor.pipe, dataBuf⟩ else .stop r ⟨cursor.pipe, dataBuf⟩ := by
  simp only [KcpPipeline.package, hcpy, TcpPipeline.upflow, hloop]
  cases r <;> rfl

theorem loop_packages (packages : List (List UInt8)) (hpipe : cursor.pipe = k.pipe)
    (hends : (feed (KcpPipeline.package cfg dec) k packages).reason ≠ some .spinning) :
    ∃ n, closeKcpCall (loop (kcpStep cfg dec) n ⟨.recv packages, cursor, k.dataBuf⟩) =
      feed (KcpPipeline.package cfg dec) k packages := by
  induction packages generalizing k cursor with
  | nil =>
    refine ⟨1, ?_⟩
    show Flow.more (⟨cursor.pipe, k.dataBuf⟩ : KcpPipeline κ τ) = .more k
    rw [hpipe]
  | cons package packages ih =>
    rw [feed_cons] at hends ⊢
    cases hcpy : memcpy k.dataBuf 0 package with
    | none =>
      refine ⟨1, ?_⟩
      rw [loop_succ]
      simp only [KcpPipeline.package, kcpStep, hcpy, Flow.stop_bind, closeKcpCall, hpipe]
    | some dataBuf =>
      -- the first block copies the package, and the loop works on it
      have hrecv : ∀ m, loop (kcpStep cfg dec) (m + 1)
          ⟨.recv (package :: packages), cursor, k.dataBuf⟩ = loop (kcpStep cfg dec) m
            ⟨.loop packages, ⟨.head, k.pipe, dataBuf.take package.length⟩, dataBuf⟩ := by
        intro m
        rw [loop_succ]
        simp only [kcpStep, hcpy, Flow.more_bind, hpipe]
      cases hloop : loop (upflowStep cfg dec) (4 * (dataBuf.take package.length).length + 4)
          ⟨.head, k.pipe, dataBuf.take package.length⟩ with
      | more cursor' =>
        simp only [KcpPipeline.package, hcpy, TcpPipeline.upflow, hloop, closeCall] at hends
        exact absurd rfl hends
      | stop r cursor' =>
        obtain ⟨m, hm⟩ := loop_kcpStep packages dataBuf hloop
        rw [package_of_loop hcpy hloop] at hends ⊢
        by_cases hr : r = .returned
        · rw [if_pos hr] at hm hends ⊢
          obtain ⟨n, hn⟩ := ih (k := ⟨cursor'.pipe, dataBuf⟩) rfl hends
          refine ⟨m + n + 1, ?_⟩
          rw [hrecv, loop_add, hm]
          exact hn
        · rw [if_neg hr] at hm ⊢
          refine ⟨m + 1, ?_⟩
          rw [hrecv, hm]
          cases r with
          | returned => exact absurd rfl hr
          | _ => rfl

/-- **The blocks are the call.** -/
theorem kcp_blocks {input : KcpInput}
    (hpipe : cursor.pipe = k.pipe) (hends : (k.upflow cfg dec input).reason ≠ some .spinning) :
    ∃ n, closeKcpCall (loop (kcpStep cfg dec) n ⟨.handshake input, cursor, k.dataBuf⟩) =
      k.upflow cfg dec input := by
  unfold KcpPipeline.upflow at hends ⊢
  by_cases hshake : input.isHandshake = true
  · refine ⟨1, ?_⟩
    rw [if_pos hshake, loop_succ]
    by_cases hfails : input.replyFails = true
    · simp only [kcpStep, hshake, hfails, if_true, Flow.stop_bind, closeKcpCall, hpipe]
    · simp only [kcpStep, hshake, hfails, if_true, if_false, Flow.stop_bind, closeKcpCall, hpipe,
        Bool.false_eq_true]
  · rw [if_neg hshake] at hends ⊢
    obtain ⟨n, hn⟩ := loop_packages input.packages hpipe hends
    refine ⟨n + 1, ?_⟩
    rw [loop_succ, ← hn]
    simp only [kcpStep, hshake, if_false, Flow.more_bind, Bool.false_eq_true]

theorem kcp_blocks_tiny :
    ∃ n, closeKcpCall (loop (kcpStep tinyConfig tinyDecoder) n ⟨.handshake ⟨[], true,
      [[0, 1], [7, 0]]⟩, ⟨.head, .new tinyConfig (), []⟩, [0, 0]⟩) =
        KcpPipeline.upflow tinyConfig tinyDecoder ⟨.new tinyConfig (), [0, 0]⟩
          ⟨[], true, [[0, 1], [7, 0]]⟩ :=
  kcp_blocks (k := ⟨.new tinyConfig (), [0, 0]⟩) rfl (by decide)

end Call

def Datagram.data (input : Datagram) : List UInt8 := if input.isHandshake then [] else input.buf

/-- A call of `UdpPipeline::upflow`, before and after its one block. -/
structure UdpCursor (κ τ : Type) where
  input : Option Datagram
  pipe : UdpPipeline κ τ

def udpStep (headSize : ℕ) (dec : DecodeFunction κ τ) (c : UdpCursor κ τ) :
    Flow Exit (UdpCursor κ τ) :=
  match c.input with
  | none => .stop .returned c
  | some input =>
    match c.pipe.upflow headSize dec input with
    | .more pipe => .more ⟨none, pipe⟩
    | .stop r pipe => .stop r ⟨none, pipe⟩

def UdpCursor.held (c : UdpCursor κ τ) : List UInt8 := (c.input.map Datagram.data).getD []

/-- `headBuf_` has its size. -/
def UdpCursor.Placed (headSize : ℕ) (c : UdpCursor κ τ) : Prop :=
  c.pipe.headBuf.length = headSize

def UdpCursor.Idle (headSize : ℕ) (c : UdpCursor κ τ) : Prop :=
  c.input = none ∧ c.pipe.headBuf.length = headSize

theorem udp_cut {p : UdpPipeline κ τ} {headSize : ℕ} {buf headBuf bodyBuf : List UInt8}
    (hlen : p.headBuf.length = headSize) (hshort : headSize ≤ buf.length)
    (hhead : memcpy p.headBuf 0 (buf.take headSize) = some headBuf)
    (hbody : memcpy p.bodyBuf 0 (buf.drop headSize) = some bodyBuf) :
    headBuf ++ bodyBuf.take (buf.length - headSize) = buf := by
  have hh := take_of_memcpy hhead
  have hb := take_of_memcpy hbody
  rw [zero_add, length_take, min_eq_left hshort,
    take_of_length_le ((length_of_memcpy hhead).trans hlen).le] at hh
  rw [zero_add, length_drop] at hb
  rw [hh, hb]
  exact take_append_drop headSize buf

/-- **What a call of `UdpPipeline::upflow` does.** -/
theorem udpStep_does {headSize : ℕ} {dec : DecodeFunction κ τ} {c : UdpCursor κ τ}
    (h : c.Placed headSize) :
    BlockDoes dec (fun c => c.pipe.log) UdpCursor.held (UdpCursor.Placed headSize)
      (UdpCursor.Idle headSize) c (udpStep headSize dec c) := by
  obtain ⟨input, p⟩ := c
  cases input with
  | none => exact .returns rfl rfl ⟨rfl, h⟩
  | some input =>
    have hlen : p.headBuf.length = headSize := h
    simp only [udpStep, UdpPipeline.upflow]
    by_cases hshake : input.isHandshake = true
    · rw [if_pos hshake]
      split_ifs
      · exact .gives nofun rfl
      · refine .quiet rfl ?_ hlen
        simp [UdpCursor.held, Datagram.data, hshake]
    · rw [if_neg hshake]
      by_cases hshort : input.buf.length < headSize
      · rw [if_pos hshort]
        exact .gives nofun rfl
      · rw [if_neg hshort]
        have hheld : (⟨some input, p⟩ : UdpCursor κ τ).held = input.buf := by
          simp [UdpCursor.held, Datagram.data, hshake]
        cases hhead : memcpy p.headBuf 0 (input.buf.take headSize) with
        | none => exact .gives nofun rfl
        | some headBuf =>
          dsimp only
          cases hbody : memcpy p.bodyBuf 0 (input.buf.drop headSize) with
          | none => exact .gives nofun rfl
          | some bodyBuf =>
            dsimp only
            have hcut := (udp_cut hlen (not_lt.1 hshort) hhead hbody).symm.trans
              (append_nil _).symm
            cases hdec : p.log.decode dec headBuf
                (bodyBuf.take (input.buf.length - headSize)) with
            | more log =>
              exact .decodes (hheld.trans hcut) hdec ((length_of_memcpy hhead).trans hlen)
            | stop r log => exact .fails (hheld.trans hcut) hdec

/-- `UdpPipeline` between the blocks of `upflow`. -/
def udpUpflow (headSize maxBodySize : ℕ) (dec : DecodeFunction κ τ) : Upflow dec where
  σ := UdpCursor κ τ
  β := Datagram
  new := fun conn => ⟨none, .new headSize maxBodySize conn⟩
  enter := fun c input => { c with input := some input }
  block := udpStep headSize dec
  log := fun c => c.pipe.log
  setLog := fun c log => { c with pipe := { c.pipe with log } }
  bytes := Datagram.data
  held := UdpCursor.held
  Placed := UdpCursor.Placed headSize
  Idle := UdpCursor.Idle headSize
  log_new := fun _ => rfl
  held_new := fun _ => rfl
  idle_new := fun _ => ⟨rfl, length_replicate⟩
  log_enter := fun _ _ => rfl
  held_enter := fun c input h => by
    have hnil : c.held = [] := by
      rw [UdpCursor.held, h.1]
      rfl
    rw [hnil]
    rfl
  placed_enter := fun _ _ h => h.2
  log_setLog := fun _ _ => rfl
  held_setLog := fun _ _ => rfl
  placed_setLog := fun _ _ h => h
  idle_setLog := fun _ _ h => h
  does := fun _ h => udpStep_does h

end Corpc.Pipeline
