/-
# The life cycle of a connection, as its worker sees it

`Server::buildAndAddConnection` hands a connection to the `Heartbeater`, takes `lock_`, calls
`onConnect` and adds the connection to the sender and then to the receiver.

`LifeCycle.step` has the actions of all threads: the acceptor, block by block the receiver routine
(`Pipeline.Blocks`), and the others as in `Io.Shutdown`.  `close` waits for `lock_`, everything else
does not.
-/

import Mathlib.Data.List.Forall2
import Mathlib.Data.List.ReduceOption
import Corpc.Io.Shutdown
import Corpc.Io.ThreadIndex
import Corpc.Message.Decoder
import Corpc.Pipeline.Blocks

namespace Corpc

open List Option
namespace Io

/-- The actions of `Io.Shutdown` that neither add the connection, nor call `upflow` or `onClose`. -/
def Action.elsewhere {δ : Type} : Action δ → Bool
  | .addSender | .addReceiver | .read .upflow | .upflow .. | .onClose => false
  | _ => true

/-- `io_->removeConnection` in `Connection::close` is called with `lock_` taken. -/
def Action.locks {δ : Type} : Action δ → Bool
  | .closePush => true
  | _ => false

/-- The receiver is out of its loop and did not call `onClose` yet. -/
def ReceiverPc.over : ReceiverPc → Bool
  | .leaving | .shutting | .waiting | .closing | .marking | .ending => true
  | _ => false

/-- How the receiver goes on where it does not read, call `upflow` or call `onClose`. -/
inductive ReceiverPc.Next : ReceiverPc → ReceiverPc → Prop
  | stays (r : ReceiverPc) : Next r r
  | starts : Next .queued .reading
  | leaves : Next .reading .leaving
  | ends {r r' : ReceiverPc} (h : r.over = true) (h' : r'.over = true) : Next r r'

theorem ReceiverPc.Next.eq_iff {r r' q : ReceiverPc} (h : r.Next r') (hq : q.over = false)
    (hqueued : q ≠ .queued) (hreading : q ≠ .reading) : r' = q ↔ r = q := by
  cases h with
  | stays => rfl
  | starts => exact ⟨fun h => absurd h.symm hreading, fun h => absurd h.symm hqueued⟩
  | leaves =>
    refine ⟨?_, fun h => absurd h.symm hreading⟩
    rintro rfl
    cases hq
  | ends h h' =>
    constructor
    · rintro rfl
      rw [h'] at hq
      cases hq
    · rintro rfl
      rw [h] at hq
      cases hq

theorem ReceiverPc.Next.unborn_iff {r r' : ReceiverPc} (h : r.Next r') :
    r' = .unborn ↔ r = .unborn :=
  h.eq_iff rfl nofun nofun

theorem ReceiverPc.Next.done_iff {r r' : ReceiverPc} (h : r.Next r') : r' = .done ↔ r = .done :=
  h.eq_iff rfl nofun nofun

section Receiver

variable {δ : Type} {s s' : Connection δ}

theorem Connection.receiver_resume (s : Connection δ) : s.resume.receiver = s.receiver := by
  unfold Connection.resume
  split_ifs <;> rfl

theorem Connection.receiver_handle (s : Connection δ) (task : SenderTask δ) :
    (s.handle task).receiver = s.receiver := by
  cases task with
  | init => rfl
  | close | data d =>
    unfold Connection.handle
    split_ifs
    · rfl
    · exact Connection.receiver_resume _

theorem Connection.receiver_takeTask (h : s.takeTask = some s') : s'.receiver = s.receiver := by
  unfold Connection.takeTask at h
  split at h
  · cases h
  · split_ifs at h
    cases h
    exact Connection.receiver_handle _ _

theorem Connection.receiver_addSender (h : s.addSender = some s') : s'.receiver = s.receiver := by
  unfold Connection.addSender at h
  split_ifs at h
  cases h
  rfl

theorem Connection.receiver_addReceiver (h : s.addReceiver = some s') :
    s.receiver = .unborn ∧ s'.receiver = .queued := by
  obtain ⟨hpc, rfl⟩ := ite_some_none_eq_some.1 h
  exact ⟨hpc.2, rfl⟩

theorem Connection.receiver_read {next : ReceiverPc} (h : s.read next = some s') :
    s.receiver = .reading ∧ (next = .upflow ∨ next = .reading ∨ next = .leaving) ∧
      s'.receiver = next := by
  obtain ⟨hpc, rfl⟩ := ite_some_none_eq_some.1 h
  exact ⟨hpc.1, hpc.2, rfl⟩

theorem Connection.receiver_upflow {answers ok : Bool} (h : s.upflow answers ok = some s') :
    s'.receiver = if ok then .reading else .leaving := by
  unfold Connection.upflow at h
  by_cases hpc : s.receiver = .upflow
  · rw [if_pos hpc] at h
    cases h
    rfl
  · rw [if_neg hpc] at h
    cases h

theorem Connection.receiver_onClose (h : s.onClose = some s') :
    s.receiver = .ending ∧ s'.receiver = .done := by
  obtain ⟨hpc, rfl⟩ := ite_some_none_eq_some.1 h
  exact ⟨hpc, rfl⟩

theorem Connection.receiver_elsewhere {a : Action δ} (ha : a.elsewhere = true)
    (h : s.step a = some s') : s.receiver.Next s'.receiver := by
  cases a with
  | addSender | addReceiver | upflow | onClose => cases ha
  | send d =>
    cases h
    exact .stays _
  | takeTask =>
    rw [Connection.receiver_takeTask h]
    exact .stays _
  | closeOpen | closePush | downflow | downflowFails | write | written | leave | shutdownRd
  | post =>
    simp only [Connection.step, Connection.closeOpen, Connection.closePush, Connection.downflow,
      Connection.downflowFails, Connection.write, Connection.written, Connection.leave,
      Connection.shutdownRd, Connection.post] at h
    split_ifs at h <;> cases h <;> exact .stays _
  | read next =>
    obtain ⟨hpc, hnext, hpc'⟩ := Connection.receiver_read h
    rw [hpc, hpc']
    rcases hnext with rfl | rfl | rfl
    · cases ha
    · exact .stays _
    · exact .leaves
  | startReceiver =>
    obtain ⟨hpc, rfl⟩ := ite_some_none_eq_some.1 h
    rw [hpc]
    exact .starts
  | wait =>
    obtain ⟨hpc, rfl⟩ := ite_some_none_eq_some.1 h
    exact .ends (by rw [hpc.1]; rfl) rfl
  | removeConnection | shutdownWr | close | mark =>
    simp only [Connection.step, Connection.removeConnection, Connection.shutdownWr,
      Connection.close, Connection.mark] at h
    split_ifs at h with hpc
    cases h
    exact .ends (by rw [hpc]; rfl) rfl

end Receiver

end Io

namespace Message

open Corpc.Basis Wire Pipeline
open ThreadIndex (Phase)

variable {μ δ : Type}

/-- `onConnect` was called. -/
def announced : Phase → Bool
  | .announced | .senderAdded | .receiverAdded | .released => true
  | _ => false

/-- `io_->addConnection` has given the connection to the receiver. -/
def added : Phase → Bool
  | .receiverAdded | .released => true
  | _ => false

def connectTask : MessageWorkerTask μ := ⟨msgTypeConnect, 0, 0, false, .null⟩

def closeTask : MessageWorkerTask μ := ⟨msgTypeClose, 0, 0, false, .null⟩

/-- A connection of a message server.  The log of its pipeline has the frames that were decoded and
the tasks that were added to the worker; `given` is what `upflow` was called with. -/
structure LifeCycle (U : Upflow (messageDecode (μ := μ))) (δ : Type) where
  needHB : Bool
  phase : Phase
  io : Io.Connection δ
  pipe : U.σ
  given : List U.β

namespace LifeCycle

variable {U : Upflow (messageDecode (μ := μ))}

inductive Action (U : Upflow (messageDecode (μ := μ))) (δ : Type) where
  | addHeartbeat
  | lock
  | onConnect
  | addSender
  | addReceiver
  /-- the acceptor releases `lock_`, and the connection is returned -/
  | unlock
  /-- `read` returns data, with which `upflow` is called -/
  | read (x : U.β)
  /-- a block of `upflow`, which may have answered a handshake -/
  | block (answers : Bool)
  | onClose
  /-- anything else in `Io.Shutdown` -/
  | io (a : Io.Action δ)
  | change (conn : ℕ × Connection μ)

variable (s : LifeCycle U δ)

def init (needHB : Bool) (conn : ℕ × Connection μ) : LifeCycle U δ :=
  ⟨needHB, .built, .init, U.new conn, []⟩

def frames : List (List UInt8 × List UInt8) := (U.log s.pipe).calls

def tasks : List (MessageWorkerTask μ) := (U.log s.pipe).tasks

def received : List UInt8 := s.given.flatMap U.bytes

def addTask (task : MessageWorkerTask μ) : LifeCycle U δ :=
  let log := U.log s.pipe
  { s with pipe := U.setLog s.pipe { log with tasks := log.tasks ++ [task] } }

def advance (p q : Phase) : Option (LifeCycle U δ) :=
  if s.phase = p then some { s with phase := q } else none

def ioStep (a : Io.Action δ) : Option (LifeCycle U δ) :=
  (s.io.step a).map fun io => { s with io }

def block (answers : Bool) : Option (LifeCycle U δ) :=
  if s.io.receiver = .upflow then
    match U.block s.pipe with
    | .more pipe => some { s with pipe }
    | .stop .returned pipe => { s with pipe }.ioStep (.upflow answers true)
    | .stop .refused pipe => { s with pipe }.ioStep (.upflow answers false)
    | .stop _ _ => none
  else none

def step : Action U δ → Option (LifeCycle U δ)
  | .addHeartbeat => if s.needHB then s.advance .built .beating else none
  | .lock => s.advance (if s.needHB then .beating else .built) .locked
  | .onConnect => (s.advance .locked .announced).map fun s => s.addTask connectTask
  | .addSender => (s.advance .announced .senderAdded).bind fun s => s.ioStep .addSender
  | .addReceiver => (s.advance .senderAdded .receiverAdded).bind fun s => s.ioStep .addReceiver
  | .unlock => s.advance .receiverAdded .released
  | .read x =>
    (s.ioStep (.read .upflow)).map fun s =>
      { s with pipe := U.enter s.pipe x, given := s.given ++ [x] }
  | .block answers => s.block answers
  | .onClose => (s.ioStep .onClose).map fun s => s.addTask closeTask
  | .io a => if a.elsewhere ∧ ¬(a.locks ∧ s.phase.holdsLock) then s.ioStep a else none
  | .change conn => some { s with pipe := U.setLog s.pipe { U.log s.pipe with conn } }

/-- What `decodeFun_` gave to the worker for a frame, at the connection of that time. -/
def Offered (f : List UInt8 × List UInt8) (outcome : Option (MessageWorkerTask μ)) : Prop :=
  ∃ conn, outcome = messageDecode.offers conn f.1 f.2

/-- Where the pipeline is, by the place of the receiver: between two calls, in a call, or left for
good.  Until then the frames and what the pipeline holds are what was received. -/
def Place (U : Upflow (messageDecode (μ := μ))) (pipe : U.σ) (received : List UInt8) :
    Io.ReceiverPc → Prop
  | .unborn | .queued | .reading =>
    U.Idle pipe ∧ wireBytes (U.log pipe).calls ++ U.held pipe = received
  | .upflow => U.Placed pipe ∧ wireBytes (U.log pipe).calls ++ U.held pipe = received
  | _ => wireBytes (U.log pipe).calls <+: received

/-- The `CONNECT` task, if it was added. -/
def opening (phase : Phase) : List (MessageWorkerTask μ) :=
  if announced phase then [connectTask] else []

/-- The `CLOSE` task, if it was added. -/
def ending (r : Io.ReceiverPc) : List (MessageWorkerTask μ) := if r = .done then [closeTask] else []

/-- The `CONNECT` task, the tasks of the frames in their order, the `CLOSE` task. -/
def InOrder (phase : Phase) (r : Io.ReceiverPc)
    (log : Log (ℕ × Connection μ) (MessageWorkerTask μ)) : Prop :=
  ∃ outcomes, List.Forall₂ Offered log.calls outcomes ∧
    log.tasks = opening phase ++ outcomes.reduceOption ++ ending r

structure Ordered : Prop where
  /-- the receiver gets the connection at the end -/
  unborn : added s.phase = false → s.io.receiver = .unborn
  /-- nothing is decoded before the receiver got the connection -/
  frames : s.io.receiver = .unborn → (U.log s.pipe).calls = []
  tasks : InOrder s.phase s.io.receiver (U.log s.pipe)
  place : Place U s.pipe s.received s.io.receiver

section InOrder

variable {p q : Phase} {r r' : Io.ReceiverPc} {log : Log (ℕ × Connection μ) (MessageWorkerTask μ)}

theorem InOrder.congr (h : InOrder p r log) (hpq : announced q = announced p)
    (hr : r' = .done ↔ r = .done) : InOrder q r' log := by
  obtain ⟨outcomes, houtcomes, htasks⟩ := h
  refine ⟨outcomes, houtcomes, ?_⟩
  have hopening : (opening q : List (MessageWorkerTask μ)) = opening p := by
    unfold opening
    rw [hpq]
  have hending : (ending r' : List (MessageWorkerTask μ)) = ending r := if_congr hr rfl rfl
  rw [hopening, hending]
  exact htasks

theorem InOrder.connect (h : InOrder p r log) (hcalls : log.calls = []) (hr : r ≠ .done)
    (hp : announced p = false) (hq : announced q = true) :
    InOrder q r { log with tasks := log.tasks ++ [connectTask] } := by
  obtain ⟨outcomes, houtcomes, htasks⟩ := h
  rw [hcalls] at houtcomes
  cases houtcomes
  refine ⟨[], ?_, ?_⟩
  · show List.Forall₂ Offered log.calls []
    rw [hcalls]
    exact .nil
  · have hnone : log.tasks = [] := by
      rw [htasks, opening, ending, if_neg hr, hp]
      rfl
    show log.tasks ++ [connectTask] = _
    rw [hnone, opening, ending, if_neg hr, if_pos hq]
    rfl

theorem InOrder.decode (h : InOrder p r log) (hr : r ≠ .done) (head body : List UInt8) :
    InOrder p r (log.decode messageDecode head body).state := by
  obtain ⟨outcomes, houtcomes, htasks⟩ := h
  refine ⟨outcomes ++ [messageDecode.offers log.conn head body], ?_, ?_⟩
  · rw [Log.calls_decode]
    exact rel_append houtcomes (.cons ⟨log.conn, rfl⟩ .nil)
  · have hending : (ending r : List (MessageWorkerTask μ)) = [] := if_neg hr
    rw [Log.tasks_decode, htasks, hending, reduceOption_append, reduceOption_singleton]
    simp only [append_nil, append_assoc]

theorem InOrder.close (h : InOrder p r log) (hr : r ≠ .done) :
    InOrder p .done { log with tasks := log.tasks ++ [closeTask] } := by
  obtain ⟨outcomes, houtcomes, htasks⟩ := h
  refine ⟨outcomes, houtcomes, ?_⟩
  have hending : (ending r : List (MessageWorkerTask μ)) = [] := if_neg hr
  rw [hending, append_nil] at htasks
  show log.tasks ++ [closeTask] = _
  rw [htasks]
  rfl

end InOrder

variable {s} {s' : LifeCycle U δ}

variable {pipe : U.σ} {received : List UInt8}

theorem Place.isPrefix {r : Io.ReceiverPc}
    (h : Place U pipe received r) : wireBytes (U.log pipe).calls <+: received := by
  cases r with
  | unborn | queued | reading | upflow => exact ⟨_, h.2⟩
  | _ => exact h

theorem Place.next {r r' : Io.ReceiverPc}
    (h : Place U pipe received r) (hr : r.Next r') : Place U pipe received r' := by
  cases hr with
  | stays | starts => exact h
  | leaves => exact h.isPrefix
  | ends _ h' =>
    cases r' with
    | leaving | shutting | waiting | closing | marking | ending => exact h.isPrefix
    | _ => cases h'

theorem Place.setLog {r : Io.ReceiverPc}
    (h : Place U pipe received r) {log : Log _ _} (hcalls : log.calls = (U.log pipe).calls) :
    Place U (U.setLog pipe log) received r := by
  cases r with
  | unborn | queued | reading =>
    refine ⟨U.idle_setLog _ _ h.1, ?_⟩
    rw [U.log_setLog, U.held_setLog, hcalls]
    exact h.2
  | upflow =>
    refine ⟨U.placed_setLog _ _ h.1, ?_⟩
    rw [U.log_setLog, U.held_setLog, hcalls]
    exact h.2
  | _ =>
    show wireBytes (U.log (U.setLog pipe log)).calls <+: received
    rw [U.log_setLog, hcalls]
    exact h

theorem advance_eq_some {p q : Phase} (hs : s.advance p q = some s') :
    s.phase = p ∧ s' = { s with phase := q } := by
  unfold LifeCycle.advance at hs
  split_ifs at hs with hp
  exact ⟨hp, (some.inj hs).symm⟩

theorem ioStep_eq_some {a : Io.Action δ} (hs : s.ioStep a = some s') :
    ∃ io, s.io.step a = some io ∧ s' = { s with io } := by
  obtain ⟨io, hio, rfl⟩ := map_eq_some_iff.1 hs
  exact ⟨io, hio, rfl⟩

namespace Ordered

section

variable (h : s.Ordered)
include h

theorem advance {p q : Phase} (hs : s.advance p q = some s')
    (hannounced : announced q = announced p) (hadded : added q = false → added p = false) :
    s'.Ordered := by
  obtain ⟨rfl, rfl⟩ := advance_eq_some hs
  exact ⟨fun hq => h.unborn (hadded hq), h.frames, h.tasks.congr hannounced Iff.rfl, h.place⟩

theorem next {io : Io.Connection δ} (hr : s.io.receiver.Next io.receiver) :
    ({ s with io } : LifeCycle U δ).Ordered :=
  ⟨fun hp => hr.unborn_iff.2 (h.unborn hp), fun hu => h.frames (hr.unborn_iff.1 hu),
    h.tasks.congr rfl hr.done_iff, h.place.next hr⟩

/-- **`onConnect`**: no task was added before, since the receiver does not have the connection. -/
theorem onConnect (hs : s.step .onConnect = some s') : s'.Ordered := by
  obtain ⟨s₁, hs₁, rfl⟩ := map_eq_some_iff.1 hs
  obtain ⟨hp, rfl⟩ := advance_eq_some hs₁
  have hunborn := h.unborn (by rw [hp]; rfl)
  have hframes := h.frames hunborn
  refine ⟨fun _ => hunborn, fun _ => ?_, ?_, h.place.setLog rfl⟩
  · show (U.log (U.setLog s.pipe _)).calls = []
    rw [U.log_setLog]
    exact hframes
  · show InOrder .announced s.io.receiver (U.log (U.setLog s.pipe _))
    rw [U.log_setLog]
    exact h.tasks.connect hframes (by rw [hunborn]; nofun) (by rw [hp]; rfl) rfl

theorem addSender (hs : s.step .addSender = some s') : s'.Ordered := by
  obtain ⟨s₁, hs₁, hs₂⟩ := bind_eq_some_iff.1 hs
  obtain ⟨io, hio, rfl⟩ := ioStep_eq_some hs₂
  refine (h.advance hs₁ rfl fun _ => rfl).next ?_
  rw [Io.Connection.receiver_addSender hio]
  exact .stays _

theorem addReceiver (hs : s.step .addReceiver = some s') : s'.Ordered := by
  obtain ⟨s₁, hs₁, hs₂⟩ := bind_eq_some_iff.1 hs
  obtain ⟨io, hio, rfl⟩ := ioStep_eq_some hs₂
  obtain ⟨hp, rfl⟩ := advance_eq_some hs₁
  obtain ⟨hunborn, hqueued⟩ := Io.Connection.receiver_addReceiver hio
  dsimp only at hunborn
  have hplace := h.place
  have htasks := h.tasks
  rw [hunborn] at hplace htasks
  refine ⟨nofun, fun hu => ?_, htasks.congr (by rw [hp]; rfl) ?_, ?_⟩
  · rw [hqueued] at hu
    cases hu
  · dsimp only
    rw [hqueued]
    exact ⟨nofun, nofun⟩
  · dsimp only
    rw [hqueued]
    exact hplace

theorem read {x : U.β} (hs : s.step (.read x) = some s') : s'.Ordered := by
  obtain ⟨s₁, hs₁, rfl⟩ := map_eq_some_iff.1 hs
  obtain ⟨io, hio, rfl⟩ := ioStep_eq_some hs₁
  obtain ⟨hreading, -, hupflow⟩ := Io.Connection.receiver_read hio
  have hunborn := h.unborn
  have htasks := h.tasks
  have hplace := h.place
  rw [hreading] at hunborn htasks hplace
  obtain ⟨hidle, hheld⟩ := hplace
  refine ⟨fun hp => ?_, fun hu => ?_, ?_, ?_⟩
  · cases hunborn hp
  · dsimp only at hu
    rw [hupflow] at hu
    cases hu
  · dsimp only
    rw [U.log_enter, hupflow]
    exact htasks.congr rfl ⟨nofun, nofun⟩
  · dsimp only
    rw [hupflow]
    refine ⟨U.placed_enter _ _ hidle, ?_⟩
    rw [U.log_enter, U.held_enter _ _ hidle, ← append_assoc, hheld]
    simp [received]

theorem setPipe (hpc : s.io.receiver = .upflow)
    {io : Io.Connection δ} (htasks : InOrder s.phase .upflow (U.log pipe))
    (hio : io.receiver = .upflow ∨ io.receiver = .reading ∨ io.receiver = .leaving)
    (hplace : Place U pipe s.received io.receiver) :
    ({ s with io, pipe } : LifeCycle U δ).Ordered := by
  refine ⟨fun hp => ?_, fun hu => ?_, ?_, hplace⟩
  · have hunborn := h.unborn hp
    rw [hpc] at hunborn
    cases hunborn
  · have hu : io.receiver = .unborn := hu
    rcases hio with hio | hio | hio <;> rw [hio] at hu <;> cases hu
  · refine htasks.congr rfl ?_
    show io.receiver = .done ↔ _
    rcases hio with hio | hio | hio <;> rw [hio] <;> exact ⟨nofun, nofun⟩

theorem returned (hpc : s.io.receiver = .upflow)
    (htasks : InOrder s.phase .upflow (U.log pipe)) {answers ok : Bool}
    (hs : ({ s with pipe } : LifeCycle U δ).ioStep (.upflow answers ok) = some s')
    (hplace : Place U pipe s.received (if ok then .reading else .leaving)) : s'.Ordered := by
  obtain ⟨io, hio, rfl⟩ := ioStep_eq_some hs
  have hreceiver := Io.Connection.receiver_upflow hio
  refine h.setPipe hpc htasks (.inr ?_) (hreceiver ▸ hplace)
  rw [hreceiver]
  cases ok with
  | true => exact .inl rfl
  | false => exact .inr rfl

/-- **A block of `upflow`**: it adds the task of the frame that it decodes, if any. -/
theorem block {answers : Bool} (hs : s.block answers = some s') : s'.Ordered := by
  unfold LifeCycle.block at hs
  split_ifs at hs with hpc
  have htasks := h.tasks
  have hplace := h.place
  rw [hpc] at htasks hplace
  obtain ⟨hplaced, hheld⟩ := hplace
  have hdoes := U.does s.pipe hplaced
  revert hs hdoes
  generalize U.block s.pipe = x
  intro hs hdoes
  cases hdoes with
  | @quiet pipe hlog hsame hplaced' =>
    cases hs
    refine h.setPipe hpc (hlog ▸ htasks) (.inl hpc) ?_
    rw [hpc]
    exact ⟨hplaced', by rw [hlog, hsame, hheld]⟩
  | @returns pipe hlog hsame hidle =>
    exact h.returned hpc (hlog ▸ htasks) hs ⟨hidle, by rw [hlog, hsame, hheld]⟩
  | @gives r pipe hr hlog =>
    cases r with
    | refused =>
      refine h.returned hpc (hlog ▸ htasks) hs ?_
      show wireBytes (U.log pipe).calls <+: s.received
      rw [hlog, ← hheld]
      exact prefix_append _ _
    | returned => exact absurd rfl hr
    | aborted | overrun | spinning => cases hs
  | @decodes head body pipe hframe hdec hplaced' =>
    cases hs
    have hnext := htasks.decode nofun head body
    have hbytes := wireBytes_decode messageDecode (U.log s.pipe) head body
    rw [hdec] at hnext hbytes
    refine h.setPipe hpc hnext (.inl hpc) ?_
    rw [hpc]
    refine ⟨hplaced', ?_⟩
    have hbytes : wireBytes (U.log pipe).calls = _ := hbytes
    rw [hbytes, append_assoc, ← hframe]
    exact hheld
  | @fails head body rest r pipe hframe hdec =>
    have hnext := htasks.decode nofun head body
    have hbytes := wireBytes_decode messageDecode (U.log s.pipe) head body
    rw [hdec] at hnext hbytes
    rcases Log.reason_of_decode hdec with rfl | rfl
    · cases hs
    · refine h.returned hpc hnext hs ?_
      show wireBytes (U.log pipe).calls <+: s.received
      have hbytes : wireBytes (U.log pipe).calls = _ := hbytes
      rw [hbytes, ← hheld, hframe]
      exact ⟨rest, by simp only [append_assoc]⟩

/-- **`onClose`**: the receiver does nothing after it. -/
theorem onClose (hs : s.step .onClose = some s') : s'.Ordered := by
  obtain ⟨s₁, hs₁, rfl⟩ := map_eq_some_iff.1 hs
  obtain ⟨io, hio, rfl⟩ := ioStep_eq_some hs₁
  obtain ⟨hending, hdone⟩ := Io.Connection.receiver_onClose hio
  have hunborn := h.unborn
  have htasks := h.tasks
  have hplace := h.place
  rw [hending] at hunborn htasks hplace
  refine ⟨fun hp => ?_, fun hu => ?_, ?_, ?_⟩
  · cases hunborn hp
  · have hu : io.receiver = .unborn := hu
    rw [hdone] at hu
    cases hu
  · show InOrder s.phase io.receiver (U.log (U.setLog s.pipe _))
    rw [U.log_setLog, hdone]
    exact htasks.close nofun
  · show Place U (U.setLog s.pipe _) s.received io.receiver
    rw [hdone]
    exact hplace.setLog rfl

theorem change (conn : ℕ × Connection μ) :
    ({ s with pipe := U.setLog s.pipe { U.log s.pipe with conn } } : LifeCycle U δ).Ordered := by
  refine ⟨h.unborn, fun hu => ?_, ?_, h.place.setLog rfl⟩
  · dsimp only
    rw [U.log_setLog]
    exact h.frames hu
  · dsimp only
    rw [U.log_setLog]
    exact h.tasks

theorem step {a : Action U δ} (hs : s.step a = some s') : s'.Ordered := by
  cases a with
  | addHeartbeat =>
    simp only [LifeCycle.step] at hs
    split_ifs at hs
    exact h.advance hs rfl fun _ => rfl
  | lock =>
    simp only [LifeCycle.step] at hs
    split_ifs at hs
    · exact h.advance hs rfl fun _ => rfl
    · exact h.advance hs rfl fun _ => rfl
  | onConnect => exact h.onConnect hs
  | addSender => exact h.addSender hs
  | addReceiver => exact h.addReceiver hs
  | unlock => exact h.advance hs rfl nofun
  | read x => exact h.read hs
  | block answers => exact h.block hs
  | onClose => exact h.onClose hs
  | io a =>
    simp only [LifeCycle.step] at hs
    split_ifs at hs with ha
    obtain ⟨io, hio, rfl⟩ := ioStep_eq_some hs
    exact h.next (Io.Connection.receiver_elsewhere ha.1 hio)
  | change conn =>
    cases hs
    exact h.change conn

end

end Ordered

theorem Offered.type {f : List UInt8 × List UInt8} {task : MessageWorkerTask μ}
    (h : Offered f (some task)) : 0 ≤ task.type ∨ task.type = msgTypeHeartbeat := by
  obtain ⟨conn, htask⟩ := h
  unfold DecodeFunction.offers at htask
  split at htask
  · cases htask
  · rename_i conn' task' hdec
    split_ifs at htask
    obtain ⟨⟨conn₁, task₁⟩, hr, heq⟩ := map_eq_some_iff.1 hdec
    obtain ⟨-, rfl⟩ := Prod.mk.inj heq
    dsimp only at htask
    rw [← htask] at hr
    obtain ⟨htype, hkind⟩ := type_decode hr
    rw [htype]
    exact hkind

end LifeCycle

/-- The servers of `corpc_message_server.cpp`. -/
inductive MessageServer
  | tcp
  | udp
  | kcp

def MessageServer.upflow : MessageServer → Upflow (messageDecode (μ := μ))
  | .tcp => tcpUpflow messageConfig messageDecode
  | .udp => udpUpflow messageHeadSize maxUdpMessageSize messageDecode
  | .kcp => kcpUpflow messageConfig messageDecode

end Message
end Corpc
