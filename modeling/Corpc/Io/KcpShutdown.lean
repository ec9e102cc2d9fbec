/-
# The third user of a KCP descriptor

`KcpMessageTerminal::Connection` in `corpc_kcp.cpp`.  `updateRoutine`, in the sender
thread, calls `kcpUpdate` until it finds `isClosing_` set; `ikcp_update` writes with `rawOut`, and
so does `kcpFlush` in the `write` of the connection.

`updateRoutine` is suspended where it waits for `kcpMtx_` and where `rawOut` waits for the socket,
and takes no part in the handshake over `closeSem_`: what it writes after that goes to a descriptor
that was closed (`rawOut_after_close`).
-/

import Corpc.Io.Shutdown

namespace Corpc.Io

open Corpc.Basis Option Connection

inductive UpdatePc where
  | unborn
  | test
  /-- in `kcpUpdate`, before it has `kcpMtx_` -/
  | locking
  /-- in `ikcp_update` -/
  | updating
  /-- in `kcpCheck` or asleep -/
  | checking
  /-- it found `isClosing_` set -/
  | ended
  deriving DecidableEq, Repr

def UpdatePc.inUpdate : UpdatePc → Bool
  | .locking | .updating => true
  | _ => false

structure Kcp (δ : Type) where
  conn : Connection δ
  update : UpdatePc
  deriving DecidableEq, Repr

inductive KcpAction (δ : Type) where
  | conn (a : Action δ)
  | test
  | lock
  | rawOut
  | updated
  | checked
  deriving DecidableEq, Repr

namespace Kcp

variable {δ : Type} (s : Kcp δ)

def init : Kcp δ := ⟨.init, .unborn⟩

/-- `onSenderInit`, which `taskQueueRoutine` calls at the `INIT` task. -/
def onSenderInit : Action δ → UpdatePc
  | .takeTask =>
    match s.conn.queue with
    | .init :: _ => .test
    | _ => s.update
  | _ => s.update

/-- `if (connection->isClosing_) break;`. -/
def test : Option (Kcp δ) :=
  if s.update = .test then
    some { s with update := if s.conn.isClosing then .ended else .locking }
  else none

/-- `kcpUpdate` gets `kcpMtx_`. -/
def lock : Option (Kcp δ) :=
  if s.update = .locking then some { s with update := .updating } else none

/-- `::write` of `rawOut` in `ikcp_update`. -/
def rawOut : Option (Kcp δ) :=
  if s.update = .updating then some { s with conn := s.conn.syscall .write } else none

/-- `kcpUpdate` returns. -/
def updated : Option (Kcp δ) :=
  if s.update = .updating then some { s with update := .checking } else none

/-- `kcpCheck` and `msleep` return. -/
def checked : Option (Kcp δ) :=
  if s.update = .checking then some { s with update := .test } else none

def step : KcpAction δ → Option (Kcp δ)
  | .conn a => (s.conn.step a).map fun conn => ⟨conn, s.onSenderInit a⟩
  | .test => s.test
  | .lock => s.lock
  | .rawOut => s.rawOut
  | .updated => s.updated
  | .checked => s.checked

end Kcp

/-- The descriptor is not closed while `updateRoutine` is in `kcpUpdate`. -/
def betweenUpdates {δ : Type} (s : Kcp δ) : KcpAction δ → Bool
  | .conn .close => !s.update.inUpdate
  | _ => true

theorem receiver_resume {δ : Type} (s : Connection δ) : s.resume.receiver = s.receiver := by
  unfold resume
  split_ifs <;> rfl

theorem receiver_handle {δ : Type} (s : Connection δ) (task : SenderTask δ) :
    (s.handle task).receiver = s.receiver := by
  cases task with
  | init => rfl
  | close | data d =>
    simp only [handle]
    split_ifs
    · rfl
    · exact receiver_resume _

theorem closedFd_step {δ : Type} {s s' : Connection δ} {a : Action δ} (hs : s.step a = some s')
    (hc : s'.receiver.closedFd = true) : s.receiver.closedFd = true ∨ a = .close := by
  cases a with
  | close => exact .inr rfl
  | send d =>
    cases hs
    exact .inl hc
  | takeTask =>
    simp only [step, takeTask] at hs
    split at hs
    · cases hs
    · split_ifs at hs
      cases hs
      rw [receiver_handle] at hc
      exact .inl hc
  | read next =>
    obtain ⟨hpc, rfl⟩ := ite_some_none_eq_some.1 hs
    rcases hpc.2 with rfl | rfl | rfl <;> cases hc
  | mark =>
    simp only [step, mark] at hs
    split_ifs at hs with hpc
    exact .inl (by rw [hpc]; rfl)
  | onClose =>
    simp only [step, onClose] at hs
    split_ifs at hs with hpc
    exact .inl (by rw [hpc]; rfl)
  | _ =>
    -- the others leave the receiver where it is, or take it to a place before its wait
    simp only [step, addSender, addReceiver, closeOpen, closePush, downflow, downflowFails, write,
      written, leave, shutdownRd, post,
      startReceiver, upflow, removeConnection,
      shutdownWr, wait] at hs
    split_ifs at hs <;> cases hs <;> first | exact .inl hc | cases hc

/-- The handshake holds, and `updateRoutine` is not in `kcpUpdate` once the descriptor is
closed. -/
structure Kcp.Sound {δ : Type} (s : Kcp δ) : Prop where
  conn : s.conn.Sound
  update : s.conn.receiver.closedFd = true → s.update.inUpdate = false

namespace Kcp.Sound

variable {δ : Type} {s s' : Kcp δ}

theorem inUpdate_onSenderInit (h : s.update.inUpdate = false) (a : Action δ) :
    (s.onSenderInit a).inUpdate = false := by
  unfold onSenderInit
  split
  · split
    · rfl
    · exact h
  · exact h

theorem ofConn (h : s.Sound) {a : Action δ} (hok : betweenUpdates s (.conn a) = true)
    (hs : s.step (.conn a) = some s') : s'.Sound := by
  obtain ⟨conn, hconn, rfl⟩ := map_eq_some_iff.1 hs
  refine ⟨h.conn.step hconn, fun hc => inUpdate_onSenderInit ?_ a⟩
  rcases closedFd_step hconn hc with hold | rfl
  · exact h.update hold
  · simpa [betweenUpdates] using hok

theorem ofUpdate (h : s.Sound) {p : UpdatePc}
    (hp : s.update.inUpdate = true ∨ s.conn.isClosing = false ∨ p.inUpdate = false) :
    { s with update := p }.Sound := by
  refine ⟨h.conn, fun hc => ?_⟩
  rcases hp with hp | hp | hp
  · rw [h.update hc] at hp
    cases hp
  · rw [(h.conn.done_of_closedFd hc).2] at hp
    cases hp
  · exact hp

theorem step (h : s.Sound) {a : KcpAction δ} (hok : betweenUpdates s a = true)
    (hs : s.step a = some s') : s'.Sound := by
  cases a with
  | conn a => exact h.ofConn hok hs
  | test =>
    simp only [Kcp.step, Kcp.test] at hs
    split_ifs at hs with hpc hclosing
    · cases hs
      exact h.ofUpdate (.inr (.inr rfl))
    · cases hs
      exact h.ofUpdate (.inr (.inl (Bool.eq_false_iff.2 hclosing)))
  | lock =>
    obtain ⟨hpc, rfl⟩ := ite_some_none_eq_some.1 hs
    exact h.ofUpdate (.inl (by rw [hpc]; rfl))
  | rawOut =>
    obtain ⟨hpc, rfl⟩ := ite_some_none_eq_some.1 hs
    have hopen : s.conn.receiver.closedFd = false := by
      refine Bool.eq_false_iff.2 fun hc => ?_
      have := h.update hc
      rw [hpc] at this
      cases this
    exact ⟨h.conn.syscall .write nofun hopen, h.update⟩
  | updated =>
    obtain ⟨hpc, rfl⟩ := ite_some_none_eq_some.1 hs
    exact h.ofUpdate (.inr (.inr rfl))
  | checked =>
    obtain ⟨hpc, rfl⟩ := ite_some_none_eq_some.1 hs
    exact h.ofUpdate (.inr (.inr rfl))

end Kcp.Sound

section Shutdown

variable {δ : Type}

theorem Kcp.sound_init : (Kcp.init : Kcp δ).Sound := ⟨Connection.sound_init, nofun⟩

/-- **No write on a closed KCP descriptor**, if it is not closed while `updateRoutine` is in
`kcpUpdate`. -/
theorem no_rawOut_after_close (actions : List (KcpAction δ)) (s : Kcp δ)
    (h : run (restrict betweenUpdates Kcp.step) Kcp.init actions = some s) (pre post : List FdOp)
    (hops : s.conn.ops = pre ++ .close :: post) : .write ∉ post := by
  have hsound : s.Sound :=
    run_restrict_invariant (fun _ _ _ hI hok hs => hI.step hok hs) Kcp.sound_init h
  rw [hsound.conn.nothing_after_close hops]
  exact List.not_mem_nil

def kcpMessage : List (KcpAction ℕ) :=
  [.conn .addSender, .conn .addReceiver, .conn .takeTask, .test, .lock, .updated,
    .conn (.downflow 0 false), .checked, .conn .startReceiver, .conn (.send 5), .conn .takeTask,
    .conn (.downflow 1 false), .conn .write, .conn (.written true), .conn (.downflow 0 false)]

def kcpClose : List (KcpAction ℕ) :=
  [.conn .closeOpen, .conn .closePush, .conn .takeTask, .conn (.downflow 0 false), .conn .leave,
    .conn .shutdownRd, .conn .post, .conn (.read .leaving), .conn .removeConnection,
    .conn .shutdownWr, .conn .wait, .conn .close]

/-- `updateRoutine` is done with an update when the connection is closed. -/
def updateInTime : List (KcpAction ℕ) :=
  kcpMessage ++ [.test, .lock, .rawOut, .updated] ++ kcpClose ++ [.checked, .test]

theorem no_rawOut_updateInTime : ∃ s,
    run (restrict betweenUpdates Kcp.step) Kcp.init updateInTime = some s ∧
      s.conn.ops = [.write, .write, .shutdownRd, .read, .shutdownWr] ++ .close :: [] ∧
      .write ∉ ([] : List FdOp) := by
  exact exists_run_and (by decide +kernel) fun s hs hp =>
    no_rawOut_after_close updateInTime s hs _ _ hp

/-- A write of `rawOut` waits for the socket when the connection is closed. -/
def updateSuspended : List (KcpAction ℕ) :=
  kcpMessage ++ [.test, .lock, .rawOut] ++ kcpClose ++ [.rawOut]

/-- **A write after the close:** in `updateSuspended` the second write of `rawOut` goes to a
descriptor that was closed. -/
theorem rawOut_after_close : ∃ s, run Kcp.step Kcp.init updateSuspended = some s ∧
    s.conn.ops = [.write, .write, .shutdownRd, .read, .shutdownWr] ++ .close :: [.write] := by
  exact exists_run_of_decide (by decide +kernel)

end Shutdown

end Corpc.Io
