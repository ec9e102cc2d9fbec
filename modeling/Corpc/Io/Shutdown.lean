/-
# How a connection is closed

`Sender::taskQueueRoutine`, `Sender::connectionRoutine`, `Receiver::connectionRoutine`,
`Connection::send` and `Connection::close` in `corpc_io.cpp`, for one connection.

The sender leaves its loop when it has sent everything and `isClosing_` is set, or at an error; it
sets `isClosing_`, shuts the reading side down and posts `closeSem_`.
-/

import Corpc.Basis.Run

namespace Corpc.Io

open Corpc.Basis List Option Bool

inductive SenderTask (δ : Type) where
  | init
  | close
  | data (d : δ)
  deriving DecidableEq, Repr

/-- Where `Sender::connectionRoutine` is. -/
inductive SenderPc where
  /-- its `INIT` task was not processed -/
  | unborn
  /-- before `downflow` -/
  | loop
  /-- in `co_yield_ct`, with `routineHang_` set -/
  | hung
  /-- in `connection->write` -/
  | writing
  | leaving
  /-- `isClosing_` is set -/
  | shutting
  | posting
  /-- `closeSem_` was posted -/
  | done
  deriving DecidableEq, Repr

def SenderPc.suspended : SenderPc → Bool
  | .unborn | .hung | .writing | .done => true
  | _ => false

/-- Where `Receiver::connectionRoutine` is. -/
inductive ReceiverPc where
  | unborn
  | queued
  /-- before or in `read` -/
  | reading
  | upflow
  | leaving
  /-- the `CLOSE` task is queued -/
  | shutting
  /-- in `closeSem_.wait` -/
  | waiting
  /-- `closeSem_` was taken -/
  | closing
  | marking
  /-- `closed_` is set -/
  | ending
  /-- `onClose` was called -/
  | done
  deriving DecidableEq, Repr

/-- The receiver got past `closeSem_.wait`. -/
def ReceiverPc.waited : ReceiverPc → Bool
  | .closing | .marking | .ending | .done => true
  | _ => false

def ReceiverPc.closedFd : ReceiverPc → Bool
  | .marking | .ending | .done => true
  | _ => false

/-- The receiver set `closed_`. -/
def ReceiverPc.marked : ReceiverPc → Bool
  | .ending | .done => true
  | _ => false

inductive FdOp where
  | read
  | write
  | shutdownRd
  | shutdownWr
  | close
  deriving DecidableEq, Repr

/-- A connection with its two routines.  `rest` says that `downflowBuf_` holds a part of a frame,
`closers` counts those who found it open in `close` and did not queue their task yet, and `ops` are
the system calls on the descriptor, oldest first. -/
structure Connection (δ : Type) where
  added : Bool
  queue : List (SenderTask δ)
  datas : List δ
  rest : Bool
  isClosing : Bool
  closed : Bool
  closeSem : ℕ
  closers : ℕ
  sender : SenderPc
  receiver : ReceiverPc
  ops : List FdOp
  onCloses : ℕ
  deriving DecidableEq, Repr

namespace Connection

variable {δ : Type} (s : Connection δ)

def init : Connection δ :=
  ⟨false, [], [], false, false, false, 0, 0, .unborn, .unborn, [], 0⟩

def isOpen : Bool := !(s.isClosing || s.closed)

def routineHang : Bool := s.sender = .hung

def syscall (op : FdOp) : Connection δ := { s with ops := s.ops ++ [op] }

def addSender : Option (Connection δ) :=
  if s.added then none else some { s with added := true, queue := s.queue ++ [.init] }

/-- `receiver_->addConnection`, which follows. -/
def addReceiver : Option (Connection δ) :=
  if s.added ∧ s.receiver = .unborn then some { s with receiver := .queued } else none

def send (d : δ) : Connection δ := { s with queue := s.queue ++ [.data d] }

/-- `Connection::close` finds the connection open. -/
def closeOpen : Option (Connection δ) :=
  if s.isOpen then some { s with closers := s.closers + 1 } else none

/-- `Connection::close` removes it. -/
def closePush : Option (Connection δ) :=
  if 0 < s.closers then some { s with closers := s.closers - 1, queue := s.queue ++ [.close] }
  else none

/-- `co_resume` of a `connectionRoutine` that hangs. -/
def resume : Connection δ := if s.routineHang then { s with sender := .loop } else s

/-- `taskQueueRoutine` handles a task. -/
def handle : SenderTask δ → Connection δ
  | .init => { s with sender := .loop }
  | .close => if s.isClosing then s else { s with isClosing := true }.resume
  | .data d => if s.isClosing then s else { s with datas := s.datas ++ [d] }.resume

/-- `taskQueueRoutine` takes a task from its queue. -/
def takeTask : Option (Connection δ) :=
  match s.queue with
  | [] => none
  | task :: queue => if s.sender.suspended then some ({ s with queue }.handle task) else none

/-- `connectionRoutine` at `downflow`, which takes `n` messages and keeps a part of the last
one if `rest` says so.  There is nothing to send if no message and no part of one is left. -/
def downflow (n : ℕ) (rest : Bool) : Option (Connection δ) :=
  if s.sender = .loop then
    if s.datas = [] ∧ s.rest = false then
      some { s with sender := if s.isClosing then .leaving else .hung }
    else if n ≤ s.datas.length then
      some { s with datas := s.datas.drop n, rest, sender := .writing }
    else none
  else none

/-- `downflow` takes `n` messages and cannot encode the next one. -/
def downflowFails (n : ℕ) : Option (Connection δ) :=
  if s.sender = .loop ∧ n < s.datas.length then
    some { s with datas := s.datas.drop n, sender := .leaving }
  else none

/-- `::write` in `connection->write`. -/
def write : Option (Connection δ) :=
  if s.sender = .writing then some (s.syscall .write) else none

/-- `connection->write` returns: everything is written, or it failed. -/
def written (ok : Bool) : Option (Connection δ) :=
  if s.sender = .writing then some { s with sender := if ok then .loop else .leaving } else none

/-- `isClosing_ = true`. -/
def leave : Option (Connection δ) :=
  if s.sender = .leaving then some { s with isClosing := true, sender := .shutting } else none

/-- `shutdown(connection->fd_, SHUT_RD)`. -/
def shutdownRd : Option (Connection δ) :=
  if s.sender = .shutting then some { s.syscall .shutdownRd with sender := .posting } else none

def post : Option (Connection δ) :=
  if s.sender = .posting then some { s with closeSem := s.closeSem + 1, sender := .done } else none

/-- `connectionDispatchRoutine` starts the coroutine. -/
def startReceiver : Option (Connection δ) :=
  if s.receiver = .queued then some { s with receiver := .reading } else none

/-- `read`: it returns data, is tried again, or the connection ended. -/
def read (next : ReceiverPc) : Option (Connection δ) :=
  if s.receiver = .reading ∧ (next = .upflow ∨ next = .reading ∨ next = .leaving) then
    some { s.syscall .read with receiver := next }
  else none

/-- `upflow`, which may answer a late handshake, accepts the data or not. -/
def upflow (answers ok : Bool) : Option (Connection δ) :=
  if s.receiver = .upflow then
    some { if answers then s.syscall .write else s with
      receiver := if ok then .reading else .leaving }
  else none

def removeConnection : Option (Connection δ) :=
  if s.receiver = .leaving then
    some { s with queue := s.queue ++ [.close], receiver := .shutting }
  else none

/-- `shutdown(fd, SHUT_WR)`. -/
def shutdownWr : Option (Connection δ) :=
  if s.receiver = .shutting then some { s.syscall .shutdownWr with receiver := .waiting } else none

/-- `closeSem_.wait()` returns. -/
def wait : Option (Connection δ) :=
  if s.receiver = .waiting ∧ 0 < s.closeSem then
    some { s with closeSem := s.closeSem - 1, receiver := .closing }
  else none

def close : Option (Connection δ) :=
  if s.receiver = .closing then some { s.syscall .close with receiver := .marking } else none

/-- `closed_ = true`. -/
def mark : Option (Connection δ) :=
  if s.receiver = .marking then some { s with closed := true, receiver := .ending } else none

def onClose : Option (Connection δ) :=
  if s.receiver = .ending then some { s with onCloses := s.onCloses + 1, receiver := .done }
  else none

end Connection

inductive Action (δ : Type) where
  | addSender
  | addReceiver
  | send (d : δ)
  | closeOpen
  | closePush
  | takeTask
  | downflow (n : ℕ) (rest : Bool)
  | downflowFails (n : ℕ)
  | write
  | written (ok : Bool)
  | leave
  | shutdownRd
  | post
  | startReceiver
  | read (next : ReceiverPc)
  | upflow (answers ok : Bool)
  | removeConnection
  | shutdownWr
  | wait
  | close
  | mark
  | onClose
  deriving DecidableEq, Repr

def Connection.step {δ : Type} (s : Connection δ) : Action δ → Option (Connection δ)
  | .addSender => s.addSender
  | .addReceiver => s.addReceiver
  | .send d => some (s.send d)
  | .closeOpen => s.closeOpen
  | .closePush => s.closePush
  | .takeTask => s.takeTask
  | .downflow n rest => s.downflow n rest
  | .downflowFails n => s.downflowFails n
  | .write => s.write
  | .written ok => s.written ok
  | .leave => s.leave
  | .shutdownRd => s.shutdownRd
  | .post => s.post
  | .startReceiver => s.startReceiver
  | .read next => s.read next
  | .upflow answers ok => s.upflow answers ok
  | .removeConnection => s.removeConnection
  | .shutdownWr => s.shutdownWr
  | .wait => s.wait
  | .close => s.close
  | .mark => s.mark
  | .onClose => s.onClose

def SenderTask.isInit {δ : Type} : SenderTask δ → Bool
  | .init => true
  | _ => false

/-- The sender left its loop and set `isClosing_`. -/
def SenderPc.left : SenderPc → Bool
  | .shutting | .posting | .done => true
  | _ => false

structure Connection.Sound {δ : Type} (s : Connection δ) : Prop where
  /-- there is one `INIT` task -/
  init : s.queue.countP (·.isInit) + (s.sender ≠ .unborn : Bool).toNat = s.added.toNat
  /-- the receiver gets past `closeSem_.wait` at the post of the sender -/
  sem : s.closeSem + s.receiver.waited.toNat = (s.sender = .done : Bool).toNat
  closing : s.sender.left = true → s.isClosing = true
  /-- the descriptor is closed once, and this is the last thing done with it -/
  ops : ∃ pre, .close ∉ pre ∧ s.ops = pre ++ if s.receiver.closedFd then [.close] else []
  closed : s.closed = s.receiver.marked
  onCloses : s.onCloses = (s.receiver = .done : Bool).toNat

namespace Connection.Sound

variable {δ : Type} {s s' : Connection δ}

theorem done_of_waited (h : s.Sound) (hw : s.receiver.waited = true) : s.sender = .done := by
  have hsem := h.sem
  rw [hw, toNat_true] at hsem
  by_contra hne
  rw [decide_eq_false hne, toNat_false] at hsem
  omega

theorem waited_of_closedFd {r : ReceiverPc} (hr : r.closedFd = true) : r.waited = true := by
  cases r <;> first | rfl | cases hr

section

variable (h : s.Sound)
include h

theorem open_of_sender (hs : s.sender ≠ .done) : s.receiver.closedFd = false :=
  eq_false_iff.2 fun hc => hs (h.done_of_waited (waited_of_closedFd hc))

theorem syscall (op : FdOp) (hop : op ≠ .close)
    (hopen : s.receiver.closedFd = false) : (s.syscall op).Sound := by
  refine { h with ops := ?_ }
  obtain ⟨pre, hpre, hops⟩ := h.ops
  refine ⟨pre ++ [op], ?_, ?_⟩
  · rw [mem_append, mem_singleton]
    rintro (hmem | heq)
    · exact hpre hmem
    · exact hop heq.symm
  · have hopen' : (s.syscall op).receiver.closedFd = false := hopen
    rw [hopen'] at *
    rw [hopen] at hops
    simp [Connection.syscall, hops]

theorem push {task : SenderTask δ} (ht : task.isInit = false) {closers : ℕ} :
    { s with queue := s.queue ++ [task], closers := closers }.Sound := by
  refine { h with init := ?_ }
  have hinit := h.init
  simp only [countP_append, countP_singleton, ht, false_eq_true, if_false] at hinit ⊢
  exact hinit

theorem sender {p q : SenderPc} {datas : List δ} {rest : Bool}
    (hpc : s.sender = q) (hold : q ≠ .unborn ∧ q ≠ .done) (hnew : p ≠ .unborn ∧ p ≠ .done)
    (hleft : p.left = true → s.isClosing = true) :
    { s with sender := p, datas := datas, rest := rest }.Sound := by
  refine { h with init := ?_, sem := ?_, closing := hleft }
  · have hinit := h.init
    rw [hpc, decide_eq_true hold.1] at hinit
    show s.queue.countP (·.isInit) + (decide (p ≠ .unborn)).toNat = _
    rw [decide_eq_true hnew.1]
    exact hinit
  · have hsem := h.sem
    rw [hpc, decide_eq_false hold.2] at hsem
    show s.closeSem + s.receiver.waited.toNat = (decide (p = .done)).toNat
    rw [decide_eq_false hnew.2]
    exact hsem

theorem setClosing : { s with isClosing := true }.Sound :=
  { h with closing := fun _ => rfl }

theorem receiver {r q : ReceiverPc} (hpc : s.receiver = q) (hold : q.waited = false)
    (hnew : r.waited = false) : { s with receiver := r }.Sound := by
  have hearly : ∀ {q : ReceiverPc}, q.waited = false →
      q.closedFd = false ∧ q.marked = false ∧ q ≠ .done := by
    intro q hq
    cases q <;> first | exact ⟨rfl, rfl, nofun⟩ | cases hq
  subst hpc
  obtain ⟨hfd, hmarked, hdone⟩ := hearly hold
  obtain ⟨hfd', hmarked', hdone'⟩ := hearly hnew
  refine { h with sem := ?_, ops := ?_, closed := ?_, onCloses := ?_ }
  · show s.closeSem + r.waited.toNat = _
    rw [hnew, ← hold]
    exact h.sem
  · show ∃ pre, FdOp.close ∉ pre ∧ s.ops = pre ++ if r.closedFd then [.close] else []
    rw [hfd', ← hfd]
    exact h.ops
  · show s.closed = r.marked
    rw [hmarked', ← hmarked]
    exact h.closed
  · show s.onCloses = (decide (r = .done)).toNat
    rw [decide_eq_false hdone', ← decide_eq_false hdone]
    exact h.onCloses

theorem addSender (hs : s.addSender = some s') : s'.Sound := by
  obtain ⟨ha, hs⟩ := ite_none_left_eq_some.1 hs
  cases hs
  have hinit := h.init
  rw [eq_false_iff.2 ha] at hinit
  refine { h with init := ?_ }
  simp only [countP_append, countP_singleton, SenderTask.isInit, if_true,
    toNat_false, toNat_true] at hinit ⊢
  omega

theorem resume : s.resume.Sound := by
  unfold Connection.resume
  split_ifs with hh
  · exact h.sender (of_decide_eq_true hh) ⟨nofun, nofun⟩ ⟨nofun, nofun⟩ nofun
  · exact h

theorem takeTask (hs : s.takeTask = some s') : s'.Sound := by
  unfold Connection.takeTask at hs
  split at hs
  · cases hs
  · rename_i task queue hq
    split_ifs at hs
    cases hs
    have hinit := h.init
    rw [hq, countP_cons] at hinit
    have hother : task.isInit = false → { s with queue := queue }.Sound := by
      intro ht
      rw [ht] at hinit
      exact { h with init := hinit }
    cases task with
    | init =>
      have hadded := toNat_le s.added
      have hunborn : s.sender = .unborn := by
        by_contra hne
        rw [decide_eq_true hne] at hinit
        simp only [SenderTask.isInit, if_true, toNat_true] at hinit
        omega
      refine { h with init := ?_, sem := ?_, closing := nofun }
      · rw [hunborn] at hinit
        exact hinit
      · have hsem := h.sem
        rw [hunborn] at hsem
        exact hsem
    | close =>
      unfold Connection.handle
      split_ifs
      · exact hother rfl
      · exact (hother rfl).setClosing.resume
    | data d =>
      unfold Connection.handle
      split_ifs
      · exact hother rfl
      · have hdatas : { s with queue := queue, datas := s.datas ++ [d] }.Sound :=
          { hother rfl with }
        exact hdatas.resume

theorem downflow {n : ℕ} {rest : Bool} (hs : s.downflow n rest = some s') :
    s'.Sound := by
  unfold Connection.downflow at hs
  split_ifs at hs with hpc <;> cases hs <;>
    exact h.sender hpc ⟨nofun, nofun⟩ ⟨nofun, nofun⟩ nofun

theorem downflowFails {n : ℕ} (hs : s.downflowFails n = some s') : s'.Sound := by
  obtain ⟨hpc, rfl⟩ := ite_some_none_eq_some.1 hs
  exact h.sender hpc.1 ⟨nofun, nofun⟩ ⟨nofun, nofun⟩ nofun

theorem write (hs : s.write = some s') : s'.Sound := by
  obtain ⟨hpc, rfl⟩ := ite_some_none_eq_some.1 hs
  exact h.syscall .write nofun (h.open_of_sender (by rw [hpc]; nofun))

theorem written {ok : Bool} (hs : s.written ok = some s') : s'.Sound := by
  unfold Connection.written at hs
  split_ifs at hs with hpc <;> cases hs <;>
    exact h.sender hpc ⟨nofun, nofun⟩ ⟨nofun, nofun⟩ nofun

theorem leave (hs : s.leave = some s') : s'.Sound := by
  obtain ⟨hpc, rfl⟩ := ite_some_none_eq_some.1 hs
  exact h.setClosing.sender hpc ⟨nofun, nofun⟩ ⟨nofun, nofun⟩ fun _ => rfl

theorem shutdownRd (hs : s.shutdownRd = some s') : s'.Sound := by
  obtain ⟨hpc, rfl⟩ := ite_some_none_eq_some.1 hs
  have hopen := h.open_of_sender (by rw [hpc]; nofun)
  have hclosing := h.closing (by rw [hpc]; rfl)
  exact (h.syscall .shutdownRd nofun hopen).sender hpc ⟨nofun, nofun⟩ ⟨nofun, nofun⟩
    fun _ => hclosing

theorem post (hs : s.post = some s') : s'.Sound := by
  obtain ⟨hpc, rfl⟩ := ite_some_none_eq_some.1 hs
  have hinit := h.init
  have hsem := h.sem
  rw [hpc] at hinit hsem
  refine { h with init := hinit, sem := ?_, closing := fun _ => h.closing (by rw [hpc]; rfl) }
  simp only [reduceCtorEq, decide_false, decide_true, toNat_false, toNat_true] at hsem ⊢
  omega

theorem addReceiver (hs : s.addReceiver = some s') : s'.Sound := by
  obtain ⟨hpc, rfl⟩ := ite_some_none_eq_some.1 hs
  exact h.receiver hpc.2 rfl rfl

theorem startReceiver (hs : s.startReceiver = some s') : s'.Sound := by
  obtain ⟨hpc, rfl⟩ := ite_some_none_eq_some.1 hs
  exact h.receiver hpc rfl rfl

theorem read {next : ReceiverPc} (hs : s.read next = some s') : s'.Sound := by
  obtain ⟨hpc, rfl⟩ := ite_some_none_eq_some.1 hs
  refine (h.syscall .read nofun (by rw [hpc.1]; rfl)).receiver hpc.1 rfl ?_
  rcases hpc.2 with rfl | rfl | rfl <;> rfl

theorem upflow {answers ok : Bool} (hs : s.upflow answers ok = some s') :
    s'.Sound := by
  unfold Connection.upflow at hs
  split_ifs at hs with hpc
  all_goals cases hs
  · exact (h.syscall .write nofun (by rw [hpc]; rfl)).receiver hpc rfl rfl
  · exact (h.syscall .write nofun (by rw [hpc]; rfl)).receiver hpc rfl rfl
  · exact h.receiver hpc rfl rfl
  · exact h.receiver hpc rfl rfl

theorem removeConnection (hs : s.removeConnection = some s') : s'.Sound := by
  obtain ⟨hpc, rfl⟩ := ite_some_none_eq_some.1 hs
  have hpush : { s with queue := s.queue ++ [SenderTask.close] }.Sound := h.push rfl
  exact hpush.receiver hpc rfl rfl

theorem shutdownWr (hs : s.shutdownWr = some s') : s'.Sound := by
  obtain ⟨hpc, rfl⟩ := ite_some_none_eq_some.1 hs
  exact (h.syscall .shutdownWr nofun (by rw [hpc]; rfl)).receiver hpc rfl rfl

theorem wait (hs : s.wait = some s') : s'.Sound := by
  obtain ⟨hpc, rfl⟩ := ite_some_none_eq_some.1 hs
  have hsem := h.sem
  have hops := h.ops
  have hclosed := h.closed
  have honCloses := h.onCloses
  rw [hpc.1] at hsem hops hclosed honCloses
  refine { h with sem := ?_, ops := hops, closed := hclosed, onCloses := honCloses }
  simp only [ReceiverPc.waited, toNat_false, toNat_true] at hsem ⊢
  omega

/-- **The descriptor is closed**, which was not done before. -/
theorem close (hs : s.close = some s') : s'.Sound := by
  obtain ⟨hpc, rfl⟩ := ite_some_none_eq_some.1 hs
  have hsem := h.sem
  have hclosed := h.closed
  have honCloses := h.onCloses
  obtain ⟨pre, hpre, hops⟩ := h.ops
  rw [hpc] at hsem hclosed honCloses hops
  refine { h with sem := hsem, ops := ⟨pre, hpre, ?_⟩, closed := hclosed, onCloses := honCloses }
  simp only [ReceiverPc.closedFd, false_eq_true, if_false, append_nil] at hops
  rw [show (s.syscall .close).ops = s.ops ++ [.close] from rfl, hops]
  rfl

theorem mark (hs : s.mark = some s') : s'.Sound := by
  obtain ⟨hpc, rfl⟩ := ite_some_none_eq_some.1 hs
  have hsem := h.sem
  have hops := h.ops
  have honCloses := h.onCloses
  rw [hpc] at hsem hops honCloses
  exact { h with sem := hsem, ops := hops, closed := rfl, onCloses := honCloses }

theorem onClose (hs : s.onClose = some s') : s'.Sound := by
  obtain ⟨hpc, rfl⟩ := ite_some_none_eq_some.1 hs
  have hsem := h.sem
  have hops := h.ops
  have hclosed := h.closed
  have honCloses := h.onCloses
  rw [hpc] at hsem hops hclosed honCloses
  refine { h with sem := hsem, ops := hops, closed := hclosed, onCloses := ?_ }
  simp only [reduceCtorEq, decide_false, toNat_false] at honCloses
  show s.onCloses + 1 = 1
  omega

theorem step {a : Action δ} (hs : s.step a = some s') : s'.Sound := by
  cases a with
  | addSender => exact h.addSender hs
  | addReceiver => exact h.addReceiver hs
  | send d =>
    cases hs
    exact h.push rfl
  | closeOpen =>
    obtain ⟨-, rfl⟩ := ite_some_none_eq_some.1 hs
    exact { h with }
  | closePush =>
    obtain ⟨-, rfl⟩ := ite_some_none_eq_some.1 hs
    exact h.push rfl
  | takeTask => exact h.takeTask hs
  | downflow n rest => exact h.downflow hs
  | downflowFails n => exact h.downflowFails hs
  | write => exact h.write hs
  | written ok => exact h.written hs
  | leave => exact h.leave hs
  | shutdownRd => exact h.shutdownRd hs
  | post => exact h.post hs
  | startReceiver => exact h.startReceiver hs
  | read next => exact h.read hs
  | upflow answers ok => exact h.upflow hs
  | removeConnection => exact h.removeConnection hs
  | shutdownWr => exact h.shutdownWr hs
  | wait => exact h.wait hs
  | close => exact h.close hs
  | mark => exact h.mark hs
  | onClose => exact h.onClose hs

end

end Connection.Sound

theorem Connection.sound_init {δ : Type} : (Connection.init : Connection δ).Sound :=
  ⟨rfl, rfl, nofun, ⟨[], nofun, rfl⟩, rfl, rfl⟩

section Shutdown

variable {δ : Type}

theorem eq_nil_of_close_last {before pre post : List FdOp} (hbefore : .close ∉ before)
    (h : before ++ [.close] = pre ++ .close :: post) : post = [] := by
  rcases eq_nil_or_concat post with rfl | ⟨init, op, rfl⟩
  · rfl
  · rw [concat_eq_append, ← cons_append, ← append_assoc] at h
    obtain ⟨rfl, -⟩ := append_inj' h rfl
    exact absurd (mem_append_right pre (mem_cons_self ..)) hbefore

namespace Connection.Sound

variable {s : Connection δ}

theorem count_close (h : s.Sound) : s.ops.count .close = s.receiver.closedFd.toNat := by
  obtain ⟨before, hbefore, hops⟩ := h.ops
  rw [hops, count_append, count_eq_zero_of_not_mem hbefore]
  cases s.receiver.closedFd <;> rfl

theorem mem_close (h : s.Sound) : .close ∈ s.ops ↔ s.receiver.closedFd = true := by
  rw [← count_pos_iff, h.count_close]
  cases s.receiver.closedFd <;> simp

theorem nothing_after_close (h : s.Sound) {pre post : List FdOp}
    (hp : s.ops = pre ++ .close :: post) : post = [] := by
  obtain ⟨before, hbefore, hops⟩ := h.ops
  have hmem : .close ∈ s.ops := by
    rw [hp]
    exact mem_append_right pre (mem_cons_self ..)
  rw [h.mem_close.1 hmem, hp] at hops
  exact eq_nil_of_close_last hbefore hops.symm

theorem done_of_closedFd (h : s.Sound) (hc : s.receiver.closedFd = true) :
    s.sender = .done ∧ s.isClosing = true := by
  have hdone := h.done_of_waited (waited_of_closedFd hc)
  exact ⟨hdone, h.closing (by rw [hdone]; rfl)⟩

end Connection.Sound

/-- **The shutdown protocol**: the descriptor is closed at most once, and nothing is done with it
afterwards. -/
theorem shutdown_protocol (actions : List (Action δ)) (s : Connection δ)
    (h : run Connection.step Connection.init actions = some s) :
    (s.ops.count .close ≤ 1 ∧ (.close ∈ s.ops → s.sender = .done)) ∧
      (∀ pre post, s.ops = pre ++ .close :: post → post = []) ∧
      (s.onCloses ≤ 1 ∧ (0 < s.onCloses → .close ∈ s.ops)) ∧
      (s.closed = true → s.isClosing = true) := by
  have hsound : s.Sound := run_invariant (fun _ _ _ hI hs => hI.step hs) Connection.sound_init h
  refine ⟨⟨?_, fun hm => ?_⟩, fun pre post => hsound.nothing_after_close, ⟨?_, fun hpos => ?_⟩,
    fun hclosed => ?_⟩
  · rw [hsound.count_close]
    exact toNat_le _
  · exact (hsound.done_of_closedFd (hsound.mem_close.1 hm)).1
  · rw [hsound.onCloses]
    exact toNat_le _
  · -- `onClose` is the last thing the receiver does
    rw [hsound.mem_close]
    rw [hsound.onCloses] at hpos
    have hdone : s.receiver = .done := by
      by_contra hne
      simp [hne] at hpos
    rw [hdone]
    rfl
  · rw [hsound.closed] at hclosed
    refine (hsound.done_of_closedFd ?_).2
    generalize s.receiver = r at hclosed ⊢
    cases r <;> first | rfl | cases hclosed

def orderlyShutdown : List (Action ℕ) :=
  [.addSender, .addReceiver, .takeTask, .downflow 0 false, .startReceiver, .read .upflow,
    .upflow true true, .send 5, .takeTask, .downflow 1 false, .closeOpen, .closePush, .takeTask,
    .write, .written true, .downflow 0 false, .leave, .shutdownRd, .read .leaving,
    .removeConnection, .shutdownWr, .post, .wait, .close, .takeTask, .mark, .onClose]

theorem shutdown_protocol_orderly :
    let s := (run Connection.step Connection.init orderlyShutdown).get (by decide +kernel)
    s.onCloses = 1 ∧ (s.ops.count .close ≤ 1 ∧ (.close ∈ s.ops → s.sender = .done)) ∧
      (∀ pre post, s.ops = pre ++ .close :: post → post = []) ∧
      (s.onCloses ≤ 1 ∧ (0 < s.onCloses → .close ∈ s.ops)) ∧
      (s.closed = true → s.isClosing = true) :=
  ⟨by decide +kernel, shutdown_protocol orderlyShutdown _ (some_get _).symm⟩

end Shutdown

end Corpc.Io
