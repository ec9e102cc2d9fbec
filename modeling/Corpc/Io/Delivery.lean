/-
# What becomes of outgoing data

`corpc_io.cpp`: `Connection::send` queues a `DATA` task.  `Sender::taskQueueRoutine` moves
the item to `datas_`, or hands it to `cleanDataOnClosing` if `isClosing_` is set;
`Sender::connectionRoutine` encodes what is in `datas_` and writes it.
-/

import Corpc.Io.Shutdown
import Corpc.Pipeline.Downflow

namespace Corpc.Io

open Corpc.Basis List Option Bool Connection SenderTask

variable {δ : Type}

def SenderTask.item : SenderTask δ → Option δ
  | .data d => some d
  | .init | .close => none

/-- The items of the `DATA` tasks, in order. -/
def items (tasks : List (SenderTask δ)) : List δ := tasks.filterMap SenderTask.item

/-- The items of the `DATA` tasks before the first `CLOSE` task. -/
def itemsBeforeClose : List (SenderTask δ) → List δ
  | [] => []
  | .init :: tasks => itemsBeforeClose tasks
  | .close :: _ => []
  | .data d :: tasks => d :: itemsBeforeClose tasks

def SenderPc.out : SenderPc → Bool
  | .leaving | .shutting | .posting | .done => true
  | _ => false

/-- A connection with the history of its data; `written` is what was written to the last byte,
`cleaned` what was handed to `cleanDataOnClosing`, `failed` says that an encode or a write
failed. -/
structure Delivery (δ : Type) where
  conn : Connection δ
  tasks : List (SenderTask δ)
  encoded : List δ
  written : List δ
  cleaned : List δ
  failed : Bool
  deriving DecidableEq, Repr

def Action.queued : Action δ → List (SenderTask δ)
  | .addSender => [.init]
  | .send d => [.data d]
  | .closePush | .removeConnection => [.close]
  | _ => []

def Action.fails : Action δ → Bool
  | .downflowFails _ => true
  | .written ok => !ok
  | _ => false

namespace Delivery

variable (s : Delivery δ)

def init : Delivery δ := ⟨.init, [], [], [], [], false⟩

def encodes : Action δ → List δ
  | .downflow n _ | .downflowFails n => s.conn.datas.take n
  | _ => []

/-- The item that an action hands to `cleanDataOnClosing`. -/
def cleans : Action δ → List δ
  | .takeTask =>
    match s.conn.queue with
    | .data d :: _ => if s.conn.isClosing then [d] else []
    | _ => []
  | _ => []

/-- The encoded items that `downflowBuf_` keeps no part of. -/
def complete : List δ := if s.conn.rest then s.encoded.dropLast else s.encoded

def writes : Action δ → List δ
  | .written true => s.complete
  | _ => s.written

/-- `downflow` fills a buffer if there is something to send: with the rest of a frame, or
with the frame of at least one item. -/
def fills : Action δ → Bool
  | .downflow n _ => (s.conn.datas.isEmpty && !s.conn.rest) || 0 < n || s.conn.rest
  | _ => true

def step (a : Action δ) : Option (Delivery δ) :=
  if s.fills a then
    (s.conn.step a).map fun conn =>
      { conn
        tasks := s.tasks ++ a.queued
        encoded := s.encoded ++ s.encodes a
        written := s.writes a
        cleaned := s.cleaned ++ s.cleans a
        failed := s.failed || a.fails }
  else none

end Delivery

@[simp]
theorem items_append (ts us : List (SenderTask δ)) : items (ts ++ us) = items ts ++ items us :=
  filterMap_append

theorem itemsBeforeClose_append_of_mem {ts : List (SenderTask δ)} (h : SenderTask.close ∈ ts)
    (us : List (SenderTask δ)) : itemsBeforeClose (ts ++ us) = itemsBeforeClose ts := by
  induction ts with
  | nil => exact absurd h not_mem_nil
  | cons t ts ih =>
    cases t with
    | init => exact ih (by simpa using h)
    | close => rfl
    | data d => exact congrArg (d :: ·) (ih (by simpa using h))

theorem itemsBeforeClose_append_of_not_mem {ts : List (SenderTask δ)} (h : SenderTask.close ∉ ts)
    (us : List (SenderTask δ)) :
    itemsBeforeClose (ts ++ us) = itemsBeforeClose ts ++ itemsBeforeClose us := by
  induction ts with
  | nil => rfl
  | cons t ts ih =>
    cases t with
    | init => exact ih (by simpa using h)
    | close => exact absurd (mem_cons_self ..) h
    | data d => exact congrArg (d :: ·) (ih (by simpa using h))

def Action.ofSender : Action δ → Bool
  | .takeTask | .downflow .. | .downflowFails _ | .written _ | .leave | .shutdownRd | .post => true
  | _ => false

variable {a : Action δ}

theorem step_frame {s s' : Connection δ} (ha : a.ofSender = false)
    (hs : s.step a = some s') : s'.queue = s.queue ++ a.queued ∧ s'.datas = s.datas ∧
      s'.rest = s.rest ∧ s'.isClosing = s.isClosing ∧ s'.sender = s.sender := by
  cases a with
  | send d =>
    cases hs
    exact ⟨rfl, rfl, rfl, rfl, rfl⟩
  | takeTask | downflow | downflowFails | written | leave | shutdownRd | post => cases ha
  | upflow answers ok =>
    simp only [Connection.step, Connection.upflow] at hs
    split_ifs at hs <;> cases hs <;> exact ⟨(append_nil _).symm, rfl, rfl, rfl, rfl⟩
  | _ =>
    simp only [Connection.step, Connection.addSender, Connection.addReceiver, Connection.closeOpen,
      Connection.closePush, Connection.write, Connection.startReceiver, Connection.read,
      Connection.removeConnection, Connection.shutdownWr, Connection.wait, Connection.close,
      Connection.mark, Connection.onClose] at hs
    split_ifs at hs
    cases hs
    first
      | exact ⟨rfl, rfl, rfl, rfl, rfl⟩
      | exact ⟨(append_nil _).symm, rfl, rfl, rfl, rfl⟩

theorem Delivery.record_frame (s : Delivery δ) (ha : a.ofSender = false) :
    s.encodes a = [] ∧ s.writes a = s.written ∧ s.cleans a = [] ∧ a.fails = false := by
  cases a <;> first | exact ⟨rfl, rfl, rfl, rfl⟩ | cases ha

structure Delivery.Sound (s : Delivery δ) : Prop where
  conn : s.conn.Sound
  /-- every item is in one place, and they are there in their order -/
  fates : items s.tasks = s.encoded ++ s.conn.datas ++ s.cleaned ++ items s.conn.queue
  cleaned : s.conn.isClosing = false → s.cleaned = []
  /-- up to a failure `isClosing_` says that a `CLOSE` task was handled -/
  handled : ∃ handled, s.tasks = handled ++ s.conn.queue ∧ (s.failed = false →
    (s.conn.isClosing = true ↔ .close ∈ handled) ∧
      itemsBeforeClose handled = s.encoded ++ s.conn.datas)
  hung : s.conn.sender = .hung → s.conn.datas = [] ∧ s.conn.rest = false ∧ s.conn.isClosing = false
  /-- what was encoded is written before more is encoded -/
  written : s.conn.sender ≠ .writing → s.conn.sender.out = false → s.written = s.complete
  /-- without a failure everything is sent when the sender leaves its loop -/
  out : s.conn.sender.out = true → s.failed = false → s.conn.isClosing = true ∧
    s.conn.datas = [] ∧ s.conn.rest = false ∧ s.written = s.encoded

namespace Delivery.Sound

variable {s s' : Delivery δ}

theorem frame (h : s.Sound) (ha : a.ofSender = false) (hs : s.step a = some s') :
    s'.Sound := by
  simp only [Delivery.step] at hs
  split_ifs at hs
  obtain ⟨conn, hconn, rfl⟩ := map_eq_some_iff.1 hs
  obtain ⟨hq, hd, hr, hc, hp⟩ := step_frame ha hconn
  obtain ⟨he, hw, hcl, hf⟩ := s.record_frame ha
  obtain ⟨handled, htasks, hhandled⟩ := h.handled
  have hcomplete : Delivery.complete
      ⟨conn, s.tasks ++ a.queued, s.encoded, s.written, s.cleaned, s.failed⟩ = s.complete := by
    simp only [complete, hr]
  rw [he, hw, hcl, hf, List.append_nil, List.append_nil, Bool.or_false]
  refine ⟨h.conn.step hconn, ?_, ?_, ⟨handled, ?_, ?_⟩, ?_, ?_, ?_⟩
  · simp only [items_append, h.fates, hd, hq, append_assoc]
  · rw [hc]
    exact h.cleaned
  · simp only [hq, htasks, append_assoc]
  · rw [hc, hd]
    exact hhandled
  · rw [hp, hd, hr, hc]
    exact h.hung
  · rw [hcomplete, hp]
    exact h.written
  · rw [hp, hd, hr, hc]
    exact h.out

variable {queue : List (SenderTask δ)}

theorem handled_cons (h : s.Sound) {task : SenderTask δ}
    (hq : s.conn.queue = task :: queue) : ∃ handled, s.tasks = handled ++ [task] ++ queue ∧
      (s.failed = false → (s.conn.isClosing = true ↔ SenderTask.close ∈ handled) ∧
        itemsBeforeClose handled = s.encoded ++ s.conn.datas) := by
  obtain ⟨handled, htasks, hhandled⟩ := h.handled
  refine ⟨handled, ?_, hhandled⟩
  rw [htasks, hq, append_assoc]
  rfl

theorem sender_resume (c : Connection δ) :
    c.resume.sender = c.sender ∨ c.sender = .hung ∧ c.resume.sender = .loop := by
  unfold resume
  split_ifs with hh
  · exact .inr ⟨of_decide_eq_true hh, rfl⟩
  · exact .inl rfl

theorem resume_eq (c : Connection δ) : c.resume.queue = c.queue ∧ c.resume.datas = c.datas ∧
    c.resume.rest = c.rest ∧ c.resume.isClosing = c.isClosing ∧ c.resume.sender ≠ .hung := by
  unfold resume
  split_ifs with hh
  · exact ⟨rfl, rfl, rfl, rfl, nofun⟩
  · exact ⟨rfl, rfl, rfl, rfl, fun he => hh (decide_eq_true he)⟩

theorem unborn_of_init {c : Connection δ} (h : c.Sound)
    (hq : c.queue = .init :: queue) : c.sender = .unborn := by
  have hinit := h.init
  have hadded := toNat_le c.added
  by_contra hne
  rw [hq, countP_cons, decide_eq_true hne] at hinit
  simp only [isInit, if_true, toNat_true] at hinit
  omega

section

variable (h : s.Sound)
include h

theorem accept {c : Connection δ} (hconn : c.Sound)
    (hopen : s.conn.isClosing = false) (hrest : c.rest = s.conn.rest)
    (hsender : c.sender = s.conn.sender ∨ s.conn.sender = .hung ∧ c.sender = .loop)
    (hhung : c.sender ≠ .hung)
    (hfates : items s.tasks = s.encoded ++ c.datas ++ s.cleaned ++ items c.queue)
    (hhandled : ∃ handled, s.tasks = handled ++ c.queue ∧ (s.failed = false →
      (c.isClosing = true ↔ SenderTask.close ∈ handled) ∧
        itemsBeforeClose handled = s.encoded ++ c.datas)) :
    { s with conn := c }.Sound := by
  have hcomplete : { s with conn := c }.complete = s.complete := by simp only [complete, hrest]
  refine ⟨hconn, hfates, fun _ => h.cleaned hopen, hhandled, fun he => absurd he hhung, ?_, ?_⟩
  · intro hw ho
    rw [hcomplete]
    rcases hsender with hsame | ⟨hold, -⟩
    · exact h.written (hsame ▸ hw) (hsame ▸ ho)
    · exact h.written (by rw [hold]; nofun) (by rw [hold]; rfl)
  · intro ho hf
    -- a sender that is out of its loop without a failure has `isClosing_` set
    rcases hsender with hsame | ⟨-, hnew⟩
    · have hclosing := (h.out (hsame ▸ ho) hf).1
      rw [hopen] at hclosing
      cases hclosing
    · simp only [hnew] at ho
      cases ho

theorem refuse {task : SenderTask δ} (hq : s.conn.queue = task :: queue) (htask : task ≠ .init)
    (hclosing : s.conn.isClosing = true) :
    { s with conn := { s.conn with queue }, cleaned := s.cleaned ++ items [task] }.Sound := by
  obtain ⟨handled, htasks, hhandled⟩ := h.handled_cons hq
  have hinit := h.conn.init
  rw [hq, countP_cons] at hinit
  refine ⟨{ h.conn with init := ?_ }, ?_, ?_, ⟨handled ++ [task], htasks, fun hf => ?_⟩, h.hung,
    h.written, h.out⟩
  · cases task with
    | init => exact absurd rfl htask
    | close | data d => exact hinit
  · have hitems : items (task :: queue) = items [task] ++ items queue := items_append [task] queue
    rw [h.fates, hq, hitems]
    simp only [append_assoc]
  · intro hopen
    rw [hclosing] at hopen
    cases hopen
  · obtain ⟨hiff, hbefore⟩ := hhandled hf
    have hmem := hiff.1 hclosing
    refine ⟨⟨fun _ => mem_append_left _ hmem, fun _ => hclosing⟩, ?_⟩
    rw [itemsBeforeClose_append_of_mem hmem]
    exact hbefore

theorem takeClose (hq : s.conn.queue = .close :: queue)
    (hsound : ({ s.conn with queue, isClosing := true }.resume).Sound)
    (hopen : s.conn.isClosing = false) :
    { s with conn := { s.conn with queue, isClosing := true }.resume }.Sound := by
  obtain ⟨handled, htasks, hhandled⟩ := h.handled_cons hq
  obtain ⟨hrq, hrd, hrr, hrc, hhung⟩ := resume_eq { s.conn with queue, isClosing := true }
  refine h.accept hsound hopen hrr (sender_resume _) hhung ?_
    ⟨handled ++ [SenderTask.close], ?_, fun hf => ?_⟩
  · rw [hrd, hrq, h.fates, hq]
    rfl
  · rw [hrq, htasks]
  · obtain ⟨hiff, hbefore⟩ := hhandled hf
    have hnot : SenderTask.close ∉ handled := fun hm => by
      rw [hiff.2 hm] at hopen
      cases hopen
    refine ⟨⟨fun _ => by simp, fun _ => hrc⟩, ?_⟩
    rw [hrd, itemsBeforeClose_append_of_not_mem hnot, hbefore]
    simp [itemsBeforeClose]

theorem takeData {d : δ} (hq : s.conn.queue = .data d :: queue)
    (hsound : ({ s.conn with queue, datas := s.conn.datas ++ [d] }.resume).Sound)
    (hopen : s.conn.isClosing = false) :
    { s with conn := { s.conn with queue, datas := s.conn.datas ++ [d] }.resume }.Sound := by
  obtain ⟨handled, htasks, hhandled⟩ := h.handled_cons hq
  obtain ⟨hrq, hrd, hrr, hrc, hhung⟩ :=
    resume_eq { s.conn with queue, datas := s.conn.datas ++ [d] }
  have hcleaned := h.cleaned hopen
  refine h.accept hsound hopen hrr (sender_resume _) hhung ?_
    ⟨handled ++ [data d], ?_, fun hf => ?_⟩
  · rw [hrd, hrq, h.fates, hq, hcleaned]
    simp [items, item]
  · rw [hrq, htasks]
  · obtain ⟨hiff, hbefore⟩ := hhandled hf
    have hnot : SenderTask.close ∉ handled := fun hm => by
      rw [hiff.2 hm] at hopen
      cases hopen
    rw [hrc, hrd, itemsBeforeClose_append_of_not_mem hnot, hbefore]
    refine ⟨⟨fun hc => absurd hc (eq_false_iff.1 hopen), fun hm => ?_⟩, ?_⟩
    · exact absurd (by simpa using hm) hnot
    · simp [itemsBeforeClose]

theorem takeInit (hq : s.conn.queue = .init :: queue)
    (hsound : { s.conn with queue, sender := .loop }.Sound) :
    { s with conn := { s.conn with queue, sender := .loop } }.Sound := by
  obtain ⟨handled, htasks, hhandled⟩ := h.handled_cons hq
  have hunborn := unborn_of_init h.conn hq
  refine ⟨hsound, ?_, h.cleaned, ⟨handled ++ [SenderTask.init], htasks, fun hf => ?_⟩, nofun,
    fun _ _ => ?_, nofun⟩
  · rw [h.fates, hq]
    rfl
  · obtain ⟨hiff, hbefore⟩ := hhandled hf
    have hitems : itemsBeforeClose (handled ++ [SenderTask.init]) = itemsBeforeClose handled := by
      by_cases hm : SenderTask.close ∈ handled
      · exact itemsBeforeClose_append_of_mem hm _
      · rw [itemsBeforeClose_append_of_not_mem hm]
        exact append_nil _
    refine ⟨hiff.trans ⟨fun hm => mem_append_left _ hm, fun hm => by simpa using hm⟩, ?_⟩
    rw [hitems]
    exact hbefore
  · exact h.written (by rw [hunborn]; nofun) (by rw [hunborn]; rfl)

/-- **A task of the queue is handled.** -/
theorem takeTask (hs : s.step .takeTask = some s') : s'.Sound := by
  simp only [Delivery.step, Delivery.fills, if_true] at hs
  obtain ⟨conn, hconn, rfl⟩ := map_eq_some_iff.1 hs
  have hsound := h.conn.step hconn
  simp only [Connection.step, Connection.takeTask] at hconn
  split at hconn
  · cases hconn
  · rename_i task queue hq
    split_ifs at hconn
    cases hconn
    simp only [Action.queued, Delivery.encodes, Delivery.writes, Delivery.cleans, hq, Action.fails,
      Bool.or_false, List.append_nil]
    cases task with
    | init =>
      rw [append_nil]
      exact h.takeInit hq hsound
    | close =>
      simp only [Connection.handle, append_nil] at hsound ⊢
      split_ifs at hsound ⊢ with hclosing
      · have href := h.refuse hq nofun hclosing
        rwa [show items [SenderTask.close] = ([] : List δ) from rfl, List.append_nil] at href
      · exact h.takeClose hq hsound (Bool.eq_false_iff.2 hclosing)
    | data d =>
      simp only [Connection.handle] at hsound ⊢
      split_ifs at hsound ⊢ with hclosing
      · exact h.refuse hq nofun hclosing
      · rw [List.append_nil]
        exact h.takeData hq hsound (Bool.eq_false_iff.2 hclosing)

theorem downflow {n : ℕ} {rest : Bool} (hs : s.step (.downflow n rest) = some s') :
    s'.Sound := by
  simp only [Delivery.step] at hs
  split_ifs at hs
  obtain ⟨conn, hconn, rfl⟩ := map_eq_some_iff.1 hs
  have hsound := h.conn.step hconn
  simp only [Connection.step, Connection.downflow] at hconn
  simp only [Action.queued, Delivery.encodes, Delivery.writes, Delivery.cleans, Action.fails,
    Bool.or_false, List.append_nil]
  have hwritten := fun hpc : s.conn.sender = .loop =>
    h.written (by rw [hpc]; nofun) (by rw [hpc]; rfl)
  have htake : s.conn.datas = [] → s.encoded ++ s.conn.datas.take n = s.encoded := by
    intro hnil
    rw [hnil, take_nil, append_nil]
  split_ifs at hconn with hpc hnone hclosing hn
  · -- nothing is left to send, and the connection is closing
    cases hconn
    have hcomplete : s.complete = s.encoded := by simp [complete, hnone.2]
    rw [htake hnone.1]
    refine ⟨hsound, h.fates, h.cleaned, h.handled, nofun, nofun, fun _ _ => ?_⟩
    exact ⟨hclosing, hnone.1, hnone.2, (hwritten hpc).trans hcomplete⟩
  · cases hconn
    rw [htake hnone.1]
    refine ⟨hsound, h.fates, h.cleaned, h.handled, fun _ => ?_, fun _ _ => hwritten hpc, nofun⟩
    exact ⟨hnone.1, hnone.2, Bool.eq_false_iff.2 hclosing⟩
  · cases hconn
    have hsplit : s.encoded ++ s.conn.datas.take n ++ s.conn.datas.drop n =
        s.encoded ++ s.conn.datas := by rw [append_assoc, take_append_drop]
    refine ⟨hsound, ?_, h.cleaned, ?_, nofun, fun hw => absurd rfl hw, nofun⟩
    · rw [hsplit]
      exact h.fates
    · rw [hsplit]
      exact h.handled

theorem downflowFails {n : ℕ} (hs : s.step (.downflowFails n) = some s') :
    s'.Sound := by
  simp only [Delivery.step, Delivery.fills, if_true] at hs
  obtain ⟨conn, hconn, rfl⟩ := map_eq_some_iff.1 hs
  have hsound := h.conn.step hconn
  simp only [Connection.step, Connection.downflowFails] at hconn
  simp only [Action.queued, Delivery.encodes, Delivery.writes, Delivery.cleans, Action.fails,
    Bool.or_true, List.append_nil]
  split_ifs at hconn with hpc
  cases hconn
  have hsplit : s.encoded ++ s.conn.datas.take n ++ s.conn.datas.drop n =
      s.encoded ++ s.conn.datas := by rw [append_assoc, take_append_drop]
  obtain ⟨handled, htasks, -⟩ := h.handled
  refine ⟨hsound, ?_, h.cleaned, ⟨handled, htasks, nofun⟩, nofun, nofun, nofun⟩
  rw [hsplit]
  exact h.fates

theorem write {ok : Bool} (hs : s.step (.written ok) = some s') : s'.Sound := by
  simp only [Delivery.step, Delivery.fills, if_true] at hs
  obtain ⟨conn, hconn, rfl⟩ := map_eq_some_iff.1 hs
  have hsound := h.conn.step hconn
  simp only [Connection.step, Connection.written] at hconn
  simp only [Action.queued, Delivery.encodes, Delivery.cleans, append_nil]
  split_ifs at hconn with hpc hok
  · cases hconn
    subst hok
    simp only [Action.fails, Bool.not_true, Bool.or_false]
    exact ⟨hsound, h.fates, h.cleaned, h.handled, nofun, fun _ _ => rfl, nofun⟩
  · cases hconn
    obtain ⟨handled, htasks, -⟩ := h.handled
    rw [eq_false_iff.2 hok]
    simp only [Action.fails, Bool.not_false, Bool.or_true]
    exact ⟨hsound, h.fates, h.cleaned, ⟨handled, htasks, nofun⟩, nofun, nofun, nofun⟩

theorem leave {c : Connection δ} (hconn : c.Sound) (hpc : s.conn.sender.out = true)
    (hc : c.queue = s.conn.queue ∧ c.datas = s.conn.datas ∧ c.rest = s.conn.rest)
    (hclosing : c.isClosing = true) (hout : c.sender.out = true) : { s with conn := c }.Sound := by
  obtain ⟨hq, hd, hr⟩ := hc
  obtain ⟨handled, htasks, hhandled⟩ := h.handled
  refine ⟨hconn, ?_, fun hopen => ?_, ⟨handled, ?_, fun hf => ?_⟩, fun he => ?_, fun _ ho => ?_,
    fun _ hf => ?_⟩
  · rw [hd, hq]
    exact h.fates
  · rw [hclosing] at hopen
    cases hopen
  · rw [hq]
    exact htasks
  · obtain ⟨hiff, hbefore⟩ := hhandled hf
    have hold := (h.out hpc hf).1
    rw [hd]
    exact ⟨⟨fun _ => hiff.1 hold, fun _ => hclosing⟩, hbefore⟩
  · rw [he] at hout
    cases hout
  · rw [hout] at ho
    cases ho
  · rw [hd, hr]
    exact ⟨hclosing, (h.out hpc hf).2⟩

theorem step (hs : s.step a = some s') : s'.Sound := by
  cases a with
  | takeTask => exact h.takeTask hs
  | downflow n rest => exact h.downflow hs
  | downflowFails n => exact h.downflowFails hs
  | written ok => exact h.write hs
  | leave | shutdownRd | post =>
    simp only [Delivery.step, Delivery.fills, if_true] at hs
    obtain ⟨conn, hconn, rfl⟩ := map_eq_some_iff.1 hs
    have hsound := h.conn.step hconn
    obtain ⟨hpc, rfl⟩ := ite_some_none_eq_some.1 hconn
    simp only [Action.queued, Delivery.encodes, Delivery.writes, Delivery.cleans, Action.fails,
      Bool.or_false, List.append_nil]
    first
      | exact h.leave hsound (by rw [hpc]; rfl) ⟨rfl, rfl, rfl⟩ rfl rfl
      | exact h.leave hsound (by rw [hpc]; rfl) ⟨rfl, rfl, rfl⟩
          (h.conn.closing (by rw [hpc]; rfl)) rfl
  | _ => exact h.frame rfl hs

end

end Delivery.Sound

theorem Delivery.step_eq {s s' : Delivery δ} (hs : s.step a = some s') :
    s.conn.step a = some s'.conn ∧ s'.tasks = s.tasks ++ a.queued ∧
      s'.encoded = s.encoded ++ s.encodes a ∧ s'.cleaned = s.cleaned ++ s.cleans a := by
  simp only [Delivery.step] at hs
  split_ifs at hs
  obtain ⟨conn, hconn, rfl⟩ := map_eq_some_iff.1 hs
  exact ⟨hconn, rfl, rfl, rfl⟩

theorem Delivery.Sound.done_step {s s' : Delivery δ} (h : s.Sound) (hdone : s.conn.sender = .done)
    (hs : s.step a = some s') :
    s'.conn.sender = .done ∧ s'.conn.datas = s.conn.datas := by
  have hconn := (Delivery.step_eq hs).1
  have hclosing : s.conn.isClosing = true := h.conn.closing (by rw [hdone]; rfl)
  by_cases ha : a.ofSender = false
  · obtain ⟨-, hd, -, -, hp⟩ := step_frame ha hconn
    exact ⟨hp.trans hdone, hd⟩
  · cases a with
    | takeTask =>
      simp only [Connection.step, Connection.takeTask] at hconn
      split at hconn
      · cases hconn
      · rename_i task queue hq
        split_ifs at hconn
        have heq := some.inj hconn
        rw [← heq]
        cases task with
        | init =>
          have hunborn := Delivery.Sound.unborn_of_init h.conn hq
          rw [hdone] at hunborn
          cases hunborn
        | close | data d => simp [handle, hclosing, hdone]
    | downflow | downflowFails | written | leave | shutdownRd | post =>
      simp [Connection.step, Connection.downflow, Connection.downflowFails, Connection.written,
        Connection.leave, Connection.shutdownRd, Connection.post, hdone] at hconn
    | _ => exact absurd rfl ha

theorem SenderPc.done_of_out {p : SenderPc} (hout : p.out = true) (hsus : p.suspended = true) :
    p = .done := by
  cases p <;> first | rfl | exact absurd hout (by decide) | exact absurd hsus (by decide)

theorem Delivery.Sound.out_step {s s' : Delivery δ} (h : s.Sound)
    (hout : s.conn.sender.out = true) (hs : s.step a = some s') :
    s'.conn.sender.out = true := by
  by_cases hdone : s.conn.sender = .done
  · rw [(h.done_step hdone hs).1]
    rfl
  have hconn := (Delivery.step_eq hs).1
  by_cases ha : a.ofSender = false
  · rw [(step_frame ha hconn).2.2.2.2]
    exact hout
  · cases a with
    | takeTask =>
      simp only [Connection.step, Connection.takeTask] at hconn
      split at hconn
      · cases hconn
      · split_ifs at hconn with hsus
        exact absurd (SenderPc.done_of_out hout hsus) hdone
    | downflow | downflowFails | written =>
      have hloop : s.conn.sender ≠ .loop := fun hp => by
        rw [hp] at hout
        cases hout
      have hwriting : s.conn.sender ≠ .writing := fun hp => by
        rw [hp] at hout
        cases hout
      simp [Connection.step, Connection.downflow, Connection.downflowFails, Connection.written,
        hloop, hwriting] at hconn
    | leave | shutdownRd | post =>
      simp only [Connection.step, Connection.leave, Connection.shutdownRd, Connection.post] at hconn
      split_ifs at hconn
      rw [← some.inj hconn]
      rfl
    | _ => exact absurd rfl ha

theorem Delivery.sound_init : (Delivery.init : Delivery δ).Sound :=
  ⟨Connection.sound_init, rfl, fun _ => rfl, ⟨[], rfl, fun _ => ⟨⟨nofun, nofun⟩, rfl⟩⟩, nofun,
    fun _ _ => rfl, nofun⟩

/-- **Outgoing data is handed over in order and once**, and where the sender hangs nothing waits for
it. -/
theorem handed_over (actions : List (Action δ)) (s : Delivery δ)
    (h : run Delivery.step Delivery.init actions = some s) :
    items s.tasks = s.encoded ++ s.conn.datas ++ s.cleaned ++ items s.conn.queue ∧
      (s.conn.sender = .done → s.conn.datas ≠ [] → s.failed = true) ∧
      (s.conn.sender.out = true → s.failed = false →
        s.encoded = itemsBeforeClose s.tasks ∧ s.written = s.encoded) ∧
      (s.conn.routineHang = true →
        s.conn.datas = [] ∧ s.conn.rest = false ∧ s.conn.isClosing = false) := by
  have hsound : s.Sound := run_invariant (fun _ _ _ hI hs => hI.step hs) Delivery.sound_init h
  refine ⟨hsound.fates, fun hdone hdatas => ?_, fun hout hf => ?_, fun hh =>
    hsound.hung (of_decide_eq_true hh)⟩
  · by_contra hf
    exact hdatas (hsound.out (by rw [hdone]; rfl) (eq_false_iff.2 hf)).2.1
  · obtain ⟨hclosing, hdatas, -, hwritten⟩ := hsound.out hout hf
    obtain ⟨handled, htasks, hhandled⟩ := hsound.handled
    obtain ⟨hiff, hbefore⟩ := hhandled hf
    refine ⟨?_, hwritten⟩
    rw [htasks, itemsBeforeClose_append_of_mem (hiff.1 hclosing), hbefore, hdatas, append_nil]

/-- Three items are sent, the first one in two parts; the connection is closed, and a fourth
item comes too late. -/
def lateItem : List (Action ℕ) :=
  [.addSender, .addReceiver, .send 1, .takeTask, .downflow 0 false, .takeTask, .downflow 1 true,
    .write, .send 2, .takeTask, .written true, .downflow 1 false, .write, .written true,
    .downflow 0 false, .send 3, .closeOpen, .closePush, .send 4, .takeTask, .downflow 1 false,
    .takeTask, .write, .written true, .downflow 0 false, .leave, .shutdownRd, .post, .takeTask]

theorem handed_over_lateItem : ∃ s, run Delivery.step Delivery.init lateItem = some s ∧
    (s.conn.sender = .done ∧ s.encoded = [1, 2, 3] ∧ s.cleaned = [4]) ∧
    items s.tasks = s.encoded ++ s.conn.datas ++ s.cleaned ++ items s.conn.queue ∧
      (s.conn.sender = .done → s.conn.datas ≠ [] → s.failed = true) ∧
      (s.conn.sender.out = true → s.failed = false →
        s.encoded = itemsBeforeClose s.tasks ∧ s.written = s.encoded) ∧
      (s.conn.routineHang = true →
        s.conn.datas = [] ∧ s.conn.rest = false ∧ s.conn.isClosing = false) := by
  exact exists_run_and (by decide +kernel) fun s hs _ => handed_over lateItem s hs

section Pipelines

open Pipeline

variable {encode : EncodeFunction δ} {frame : δ → List UInt8 × List UInt8} {headSize space : ℕ}
  {c : Connection δ} {st : Downflow δ}

/-- The connection of a pipeline: it has its queue, and `rest` says that the pipeline keeps a
part of a frame. -/
structure Connection.Carries (c : Connection δ) (st : Downflow δ) : Prop where
  datas : c.datas = st.datas
  rest : c.rest = true ↔ st.downflowBuf ≠ []
  aligned : st.Aligned

/-- **`MessagePipeline::downflow` takes items**, with a buffer that has space for a head: the
sender goes on to write what it got, and if it got nothing there was nothing to send. -/
theorem downflow_takes (hpos : 0 < headSize) (hc : c.Carries st) (hpc : c.sender = .loop)
    (h : ∀ d ∈ st.datas, Encodes headSize (encode d) (frame d).1 (frame d).2)
    (hspace : headSize ≤ space) :
    ∃ out st' n rest c', st.downflow encode space = .sent out st' ∧
      c.downflow n rest = some c' ∧ c'.Carries st' ∧ (c'.sender = .writing ↔ out ≠ []) ∧
      (out ≠ [] → 0 < n ∨ c.rest = true) := by
  obtain ⟨out, st', hout, hal, -, hstream, hne⟩ := downflow_stream hpos hc.aligned h hspace
  obtain ⟨n, hn, hdatas, htake⟩ := Downflow.downflow_drop hout
  have hdrained := hc.aligned.drained_iff hpos fun d hd => (h d hd).length_head
  by_cases hnone : st.pending frame = []
  · obtain ⟨hbuf, hnil⟩ := hdrained.2 hnone
    rw [hnone] at hstream
    obtain ⟨rfl, hpend⟩ := append_eq_nil_iff.1 hstream
    have hdatas' : st'.datas = [] := by rw [hdatas, hnil, drop_nil]
    have hbuf' : st'.downflowBuf = [] := by
      refine ((hal.drained_iff hpos ?_).2 hpend).1
      rw [hdatas']
      nofun
    have hrest : c.rest = false := eq_false_iff.2 fun hr => hc.rest.1 hr hbuf
    have hcdatas : c.datas = [] := hc.datas.trans hnil
    refine ⟨[], st', 0, false, { c with sender := if c.isClosing then .leaving else .hung }, hout,
      ?_, ⟨hcdatas.trans hdatas'.symm, ?_, hal⟩, ?_, fun ho => absurd rfl ho⟩
    · simp [Connection.downflow, hpc, hcdatas, hrest]
    · simp [hrest, hbuf']
    · simp only [ne_eq, not_true_eq_false, iff_false]
      split_ifs <;> nofun
  · have hsome : ¬(c.datas = [] ∧ c.rest = false) := by
      rintro ⟨hd, hr⟩
      refine hnone (hdrained.1 ⟨?_, hc.datas.symm.trans hd⟩)
      by_contra hb
      exact eq_false_iff.1 hr (hc.rest.2 hb)
    refine ⟨out, st', n, st'.downflowBuf ≠ [],
      { c with datas := c.datas.drop n, rest := st'.downflowBuf ≠ [], sender := .writing }, hout,
      ?_, ⟨?_, decide_eq_true_iff, hal⟩, ⟨fun _ => hne hnone, fun _ => rfl⟩, fun ho => ?_⟩
    · rw [Connection.downflow, if_pos hpc, if_neg hsome, if_pos (by rw [hc.datas]; exact hn)]
    · rw [hc.datas, hdatas]
    · exact (htake ho).imp_right hc.rest.2

/-- An encoder of frames of one byte. -/
def oneByte : EncodeFunction UInt8 := fun d space buf sentNum =>
  if 0 < space then .wrote [d] [] 0 else .wrote [] buf sentNum

/-- A sender at its loop with an item. -/
def oneItem : Connection UInt8 := { Connection.init with datas := [7], sender := .loop }

theorem oneItem_carries : oneItem.Carries ⟨[], 0, [7]⟩ := ⟨rfl, by simp [oneItem, Connection.init],
  .inl ⟨rfl, rfl⟩⟩

/-- An encoder of frames with a head of one byte and a body of two. -/
def threeBytes : EncodeFunction UInt8 := fun d space buf sentNum =>
  if space < 1 then .wrote [] buf sentNum
  else if 3 ≤ space then .wrote [d, d, d] [] 0
  else .wrote (d :: [d, d].take (space - 1)) [d, d] (space - 1)

/-- A sender at its loop with the rest of a frame and two items. -/
def restAndItems : Connection UInt8 :=
  { Connection.init with datas := [7, 8], rest := true, sender := .loop }

/-- The rest goes out and the first frame; the second is cut behind its head. -/
theorem downflow_takes_oneItem :
    ∃ out st' n rest c',
      (⟨[6, 6], 1, [7, 8]⟩ : Downflow UInt8).downflow threeBytes 5 = .sent out st' ∧
      (restAndItems.downflow n rest = some c' ∧ c'.Carries st' ∧
        (c'.sender = .writing ↔ out ≠ []) ∧ (out ≠ [] → 0 < n ∨ restAndItems.rest = true)) ∧
      out = [6, 7, 7, 7, 8] ∧ st'.downflowBuf = [8, 8] := by
  have hcarries : restAndItems.Carries ⟨[6, 6], 1, [7, 8]⟩ :=
    ⟨rfl, by simp [restAndItems], .inr Nat.one_lt_two⟩
  have hencodes : ∀ d, Encodes 1 (threeBytes d) [d] [d, d] := by
    refine fun d => ⟨rfl, fun space buf n h => if_pos h, fun space h => ?_, fun space h h' => ?_⟩
    · have hlong : 3 ≤ space := h
      rw [threeBytes, if_neg (by omega), if_pos hlong]
      rfl
    · have hshort : ¬3 ≤ space := Nat.not_le.2 h'
      rw [threeBytes, if_neg (by omega), if_neg hshort]
      rfl
  obtain ⟨out, st', n, rest, c', hout, htaken⟩ :=
    @downflow_takes _ threeBytes (fun d => ([d], [d, d])) 1 5 _ _ Nat.one_pos hcarries rfl
      (fun d _ => hencodes d) (by decide)
  refine ⟨out, st', n, rest, c', hout, htaken, ?_⟩
  have hsent : Sent.sent [6, 7, 7, 7, 8] ⟨[8, 8], 0, []⟩ = .sent out st' := hout
  cases hsent
  exact ⟨rfl, rfl⟩

/-- **`UdpPipeline::downflow` takes one item**, or fails at it. -/
theorem udp_downflow_takes (hc : c.Carries st) (hrest : c.rest = false) (hpc : c.sender = .loop)
    (hne : ∀ d ∈ st.datas, ∀ bytes buf sentNum,
      encode d space st.downflowBuf st.downflowBufSentNum = .wrote bytes buf sentNum → bytes ≠ [])
    {out : List UInt8} {st' : Downflow δ}
    (h : UdpPipeline.downflow encode st space = .sent out st') :
    ∃ n c', c.downflow n false = some c' ∧ c'.datas = st'.datas ∧
      (c'.sender = .writing ↔ out ≠ []) ∧ (out ≠ [] → 0 < n) := by
  unfold UdpPipeline.downflow at h
  split at h
  · rename_i hnil
    cases h
    have hcdatas : c.datas = [] := hc.datas.trans hnil
    refine ⟨0, { c with sender := if c.isClosing then .leaving else .hung }, ?_, hc.datas, ?_,
      fun ho => absurd rfl ho⟩
    · simp [Connection.downflow, hpc, hcdatas, hrest]
    · simp only [ne_eq, not_true_eq_false, iff_false]
      split_ifs <;> nofun
  · rename_i d datas hd
    split at h
    · cases h
    · cases h
    · rename_i bytes buf sentNum hwrote
      split_ifs at h
      cases h
      have hcdatas : c.datas = d :: datas := hc.datas.trans hd
      refine ⟨1, { c with datas := datas, rest := false, sender := .writing }, ?_, rfl,
        ⟨fun _ => hne d (by rw [hd]; exact mem_cons_self ..) _ _ _ hwrote, fun _ => rfl⟩,
        fun _ => Nat.one_pos⟩
      simp [Connection.downflow, hpc, hcdatas]

theorem udp_downflow_takes_oneItem :
    ∃ n c', oneItem.downflow n false = some c' ∧ c'.datas = [] ∧
      (c'.sender = .writing ↔ ([7] : List UInt8) ≠ []) ∧ (([7] : List UInt8) ≠ [] → 0 < n) := by
  have h : UdpPipeline.downflow oneByte ⟨[], 0, [7]⟩ 4 = .sent [7] ⟨[], 0, []⟩ := rfl
  refine udp_downflow_takes oneItem_carries rfl rfl (fun d _ bytes buf sentNum hwrote => ?_) h
  cases hwrote
  exact cons_ne_nil d []

end Pipelines

end Corpc.Io
