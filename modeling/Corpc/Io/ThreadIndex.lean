/-
# The sender thread of a connection

`MultiThreadSender` in `corpc_io.cpp`: `addConnection` gives a connection the index of one
of its threads, and `send` and `removeConnection` use that index, which is -1 before.
-/

import Corpc.Basis.Run

namespace Corpc.ThreadIndex

open Corpc.Basis List Option

inductive Phase where
  | unborn
  /-- made by `buildAndAddConnection` -/
  | built
  /-- handed to the `Heartbeater` -/
  | beating
  /-- `lock_` is taken -/
  | locked
  /-- `onConnect` queued its `CONNECT` task -/
  | announced
  /-- `sender_->addConnection` was called -/
  | senderAdded
  /-- `receiver_->addConnection` was called -/
  | receiverAdded
  /-- `lock_` is released, and the connection returned -/
  | released
  /-- made by `getNextConnection` of a channel -/
  | connecting
  /-- `connect` failed -/
  | refused
  /-- connected, and added to the IO by `connectionRoutine` -/
  | connected
  deriving DecidableEq, Repr

/-- `lock_` is held by the thread that builds the connection. -/
def Phase.holdsLock : Phase → Bool
  | .locked | .announced | .senderAdded | .receiverAdded => true
  | _ => false

def Phase.sender : Phase → Bool
  | .senderAdded | .receiverAdded | .released | .connected => true
  | _ => false

def Phase.receiver : Phase → Bool
  | .receiverAdded | .released | .connected => true
  | _ => false

inductive Role where
  /-- a handler of the `CONNECT` task, or whom it passed the connection on to -/
  | connectHandler
  | heartbeat
  | messageHandler
  /-- who called `buildAndAddConnection` -/
  | application
  /-- `connectionRoutine` and `taskHandleRoutine` of the `RpcClient` -/
  | client
  /-- `clearChannelRoutine` of the `RpcClient` -/
  | clearChannel
  deriving DecidableEq, Repr

/-- What `Connection` says about its way into the IO; `closers` are those who found it open
in `close` and wait for `lock_`. -/
structure Connection where
  phase : Phase
  needHB : Bool
  sendThreadIndex : Int
  isClosing : Bool
  closed : Bool
  closers : List Role
  deriving DecidableEq, Repr

namespace Connection

/-- `Connection::Connection`. -/
def new (phase : Phase) (needHB : Bool) : Connection := ⟨phase, needHB, -1, false, false, []⟩

def isOpen (c : Connection) : Bool := !(c.isClosing || c.closed)

end Connection

def Role.reached (needHB : Bool) (phase : Phase) : Role → Bool
  | .connectHandler =>
    match phase with
    | .announced | .senderAdded | .receiverAdded | .released => true
    | _ => false
  | .heartbeat =>
    match phase with
    | .beating | .locked | .announced | .senderAdded | .receiverAdded | .released => needHB
    | _ => false
  | .messageHandler => phase.receiver
  | .application => phase = .released
  | .client => phase = .connected
  | .clearChannel => phase = .connecting || phase = .refused || phase = .connected

def Role.has (c : Connection) (r : Role) : Bool := r.reached c.needHB c.phase

/-- `clearChannelRoutine` only closes. -/
def Role.sends : Role → Bool
  | .clearChannel => false
  | _ => true

/-- `connectionRoutine` and `taskHandleRoutine` do not close. -/
def Role.closes : Role → Bool
  | .client => false
  | _ => true

/-- The `MultiThreadSender` and all connections; `uses` has the indices with which
`threadDatas_` was used. -/
structure State where
  threadNum : UInt16
  lastThreadIndex : UInt16
  conns : ℕ → Connection
  uses : List Int

def State.init (threadNum : UInt16) : State where
  threadNum := threadNum
  lastThreadIndex := 0
  conns := fun _ => .new .unborn false
  uses := []

namespace State

variable (s : State)

def modify (c : ℕ) (f : Connection → Connection) : State :=
  { s with conns := Function.update s.conns c (f (s.conns c)) }

def advance (c : ℕ) (p q : Phase) : Option State :=
  if (s.conns c).phase = p then some (s.modify c fun d => { d with phase := q }) else none

def build (c : ℕ) (phase : Phase) (needHB : Bool) : Option State :=
  if (s.conns c).phase = .unborn then some (s.modify c fun _ => .new phase needHB) else none

/-- `MultiThreadSender::addConnection`, from one phase to the next. -/
def addConnection (c : ℕ) (p q : Phase) : Option State :=
  if (s.conns c).phase = p then
    let index := s.lastThreadIndex % s.threadNum
    some { s.modify c fun d => { d with phase := q, sendThreadIndex := index.toNat } with
      lastThreadIndex := s.lastThreadIndex + 1 }
  else none

/-- `threadDatas_[connection->getSendThreadIndex()]`. -/
def index (c : ℕ) : State := { s with uses := s.uses ++ [(s.conns c).sendThreadIndex] }

/-- `Heartbeater::addConnection`, if the connection needs heartbeats. -/
def addHeartbeat (c : ℕ) : Option State :=
  if (s.conns c).needHB then s.advance c .built .beating else none

/-- `LockGuard lock(connection->getLock())` in `buildAndAddConnection`. -/
def lock (c : ℕ) : Option State :=
  if (s.conns c).needHB then s.advance c .beating .locked else s.advance c .built .locked

/-- `Sender` sets `isClosing_`. -/
def setClosing (c : ℕ) : Option State :=
  if (s.conns c).phase.sender then some (s.modify c fun d => { d with isClosing := true }) else none

/-- `Receiver::connectionRoutine` sets `closed_`. -/
def setClosed (c : ℕ) : Option State :=
  if (s.conns c).phase.receiver then some (s.modify c fun d => { d with closed := true }) else none

def send (r : Role) (c : ℕ) : Option State :=
  if r.sends ∧ r.has (s.conns c) then some (s.index c) else none

/-- `Connection::close` finds the connection open. -/
def closeOpen (r : Role) (c : ℕ) : Option State :=
  if r.closes ∧ r.has (s.conns c) ∧ (s.conns c).isOpen then
    some (s.modify c fun d => { d with closers := d.closers ++ [r] })
  else none

/-- `Connection::close` gets `lock_` and removes the connection. -/
def closeLocked (r : Role) (c : ℕ) : Option State :=
  if r ∈ (s.conns c).closers ∧ (s.conns c).phase.holdsLock = false then
    some ((s.index c).modify c fun d => { d with closers := d.closers.erase r })
  else none

/-- `Receiver::connectionRoutine` removes the connection. -/
def receiverRemove (c : ℕ) : Option State :=
  if (s.conns c).phase.receiver then some (s.index c) else none

end State

/-- What the threads that have a part in the life of a connection do. -/
inductive Action where
  | build (conn : ℕ) (needHB : Bool)
  | addHeartbeat (conn : ℕ)
  | lock (conn : ℕ)
  | onConnect (conn : ℕ)
  | addSender (conn : ℕ)
  | addReceiver (conn : ℕ)
  | unlock (conn : ℕ)
  | newConnection (conn : ℕ)
  | connectFailed (conn : ℕ)
  | connectDone (conn : ℕ)
  | setClosing (conn : ℕ)
  | setClosed (conn : ℕ)
  | send (role : Role) (conn : ℕ)
  | closeOpen (role : Role) (conn : ℕ)
  | closeLocked (role : Role) (conn : ℕ)
  | receiverRemove (conn : ℕ)
  deriving DecidableEq, Repr

def State.step (s : State) : Action → Option State
  | .build c needHB => s.build c .built needHB
  | .addHeartbeat c => s.addHeartbeat c
  | .lock c => s.lock c
  | .onConnect c => s.advance c .locked .announced
  | .addSender c => s.addConnection c .announced .senderAdded
  | .addReceiver c => s.advance c .senderAdded .receiverAdded
  | .unlock c => s.advance c .receiverAdded .released
  | .newConnection c => s.build c .connecting false
  | .connectFailed c => s.advance c .connecting .refused
  | .connectDone c => s.addConnection c .connecting .connected
  | .setClosing c => s.setClosing c
  | .setClosed c => s.setClosed c
  | .send r c => s.send r c
  | .closeOpen r c => s.closeOpen r c
  | .closeLocked r c => s.closeLocked r c
  | .receiverRemove c => s.receiverRemove c

/-- A handler of `CONNECT`, the heartbeat thread and `clearChannelRoutine` do nothing to a
connection that is on its way into the IO. -/
def inTurn (s : State) : Action → Bool
  | .send .connectHandler c => (s.conns c).phase ≠ .announced
  | .send .heartbeat c =>
    (s.conns c).phase ≠ .beating && (s.conns c).phase ≠ .locked && (s.conns c).phase ≠ .announced
  | .closeLocked .heartbeat c => (s.conns c).phase ≠ .beating
  | .closeLocked .clearChannel c =>
    (s.conns c).phase ≠ .connecting && (s.conns c).phase ≠ .refused
  | _ => true

def validIndex (threadNum : UInt16) (i : Int) : Prop := 0 ≤ i ∧ i < threadNum.toNat

/-- A connection that was given to the sender has a thread, who waits to close a connection
has it, and only threads there are were used. -/
structure State.Indexed (n : UInt16) (s : State) : Prop where
  threadNum : s.threadNum = n
  index : ∀ c, (s.conns c).phase.sender = true → validIndex n (s.conns c).sendThreadIndex
  closers : ∀ c r, r ∈ (s.conns c).closers → r.has (s.conns c) = true
  uses : ∀ i ∈ s.uses, validIndex n i

def Phase.next : Phase → Phase → Bool
  | .built, .beating | .built, .locked | .beating, .locked | .locked, .announced => true
  | .announced, .senderAdded | .senderAdded, .receiverAdded | .receiverAdded, .released => true
  | .connecting, .refused | .connecting, .connected => true
  | _, _ => false

variable {r : Role} {p : Phase}

theorem Role.reached_next {q : Phase} {needHB : Bool} (hpq : p.next q = true)
    (hr : r.reached needHB p = true) : r.reached needHB q = true := by
  cases r <;> cases p <;> cases q <;> simp_all [Phase.next, Role.reached, Phase.receiver]

theorem sender_of_send {s : State} {c : ℕ} (hr : r.sends = true)
    (hhas : r.has (s.conns c) = true) (hok : inTurn s (.send r c) = true) :
    (s.conns c).phase.sender = true := by
  unfold Role.has at hhas
  unfold inTurn at hok
  cases r <;> cases hp : (s.conns c).phase <;>
    simp_all [Role.reached, Role.sends, Phase.receiver, Phase.sender]

theorem sender_of_closeLocked {s : State} {c : ℕ}
    (hhas : r.has (s.conns c) = true) (hlock : (s.conns c).phase.holdsLock = false)
    (hok : inTurn s (.closeLocked r c) = true) : (s.conns c).phase.sender = true := by
  unfold Role.has at hhas
  unfold inTurn at hok
  cases r <;> cases hp : (s.conns c).phase <;>
    simp_all [Role.reached, Phase.receiver, Phase.sender, Phase.holdsLock]

namespace State.Indexed

variable {n : UInt16} {s s' : State} {c : ℕ}

section

variable (h : s.Indexed n)
include h

theorem modify {f : Connection → Connection}
    (hindex : (f (s.conns c)).phase.sender = true → validIndex n (f (s.conns c)).sendThreadIndex)
    (hclosers : ∀ r ∈ (f (s.conns c)).closers, r.has (f (s.conns c)) = true) :
    (s.modify c f).Indexed n := by
  refine ⟨h.threadNum, fun d => ?_, fun d r => ?_, h.uses⟩
  · simp only [State.modify, Function.update_apply]
    split_ifs with hd
    · exact hindex
    · exact h.index d
  · simp only [State.modify, Function.update_apply]
    split_ifs with hd
    · exact hclosers r
    · exact h.closers d r

theorem used (hc : (s.conns c).phase.sender = true) :
    (s.index c).Indexed n := by
  refine ⟨h.threadNum, h.index, h.closers, fun i hi => ?_⟩
  rcases mem_append.1 hi with hi | hi
  · exact h.uses i hi
  · rw [mem_singleton.1 hi]
    exact h.index c hc

theorem advance {q : Phase} (hs : s.advance c p q = some s')
    (hpq : p.next q = true) (hsender : q.sender = true → p.sender = true) : s'.Indexed n := by
  obtain ⟨hp, rfl⟩ := ite_some_none_eq_some.1 hs
  refine h.modify (fun hq => h.index c (hp ▸ hsender hq)) fun r hr => Role.reached_next hpq ?_
  rw [← hp]
  exact h.closers c r hr

theorem build {needHB : Bool} (hp : p.sender = false)
    (hs : s.build c p needHB = some s') : s'.Indexed n := by
  unfold State.build at hs
  split_ifs at hs
  cases hs
  refine h.modify (fun hsender => ?_) fun r hr => by cases hr
  rw [show (Connection.new p needHB).phase = p from rfl, hp] at hsender
  cases hsender

/-- **`addConnection` gives a connection one of the threads.** -/
theorem addConnection (hn : 0 < n) {q : Phase}
    (hs : s.addConnection c p q = some s') (hpq : p.next q = true) : s'.Indexed n := by
  obtain ⟨hp, rfl⟩ := ite_some_none_eq_some.1 hs
  have hvalid : validIndex n ((s.lastThreadIndex % s.threadNum).toNat : Int) := by
    rw [h.threadNum]
    have hlt : s.lastThreadIndex.toNat % n.toNat < n.toNat := Nat.mod_lt _ hn
    refine ⟨Int.natCast_nonneg _, ?_⟩
    rw [UInt16.toNat_mod]
    exact_mod_cast hlt
  have hmodify : (s.modify c fun d => { d with
      phase := q, sendThreadIndex := (s.lastThreadIndex % s.threadNum).toNat }).Indexed n := by
    refine h.modify (fun _ => hvalid) fun r hr => Role.reached_next hpq ?_
    rw [← hp]
    exact h.closers c r hr
  exact ⟨hmodify.threadNum, hmodify.index, hmodify.closers, hmodify.uses⟩

theorem addHeartbeat (hs : s.addHeartbeat c = some s') : s'.Indexed n := by
  unfold State.addHeartbeat at hs
  split_ifs at hs
  exact h.advance hs rfl nofun

theorem lock (hs : s.lock c = some s') : s'.Indexed n := by
  unfold State.lock at hs
  split_ifs at hs
  · exact h.advance hs rfl nofun
  · exact h.advance hs rfl nofun

theorem setClosing (hs : s.setClosing c = some s') : s'.Indexed n := by
  obtain ⟨-, rfl⟩ := ite_some_none_eq_some.1 hs
  exact h.modify (h.index c) (h.closers c)

theorem setClosed (hs : s.setClosed c = some s') : s'.Indexed n := by
  obtain ⟨-, rfl⟩ := ite_some_none_eq_some.1 hs
  exact h.modify (h.index c) (h.closers c)

theorem send (hok : inTurn s (.send r c) = true) (hs : s.send r c = some s') : s'.Indexed n := by
  obtain ⟨hr, rfl⟩ := ite_some_none_eq_some.1 hs
  exact h.used (sender_of_send hr.1 hr.2 hok)

theorem closeOpen (hs : s.closeOpen r c = some s') :
    s'.Indexed n := by
  obtain ⟨hr, rfl⟩ := ite_some_none_eq_some.1 hs
  refine h.modify (h.index c) fun r' hr' => ?_
  rcases mem_append.1 hr' with hold | hnew
  · exact h.closers c r' hold
  · rw [mem_singleton.1 hnew]
    exact hr.2.1

theorem closeLocked (hok : inTurn s (.closeLocked r c) = true)
    (hs : s.closeLocked r c = some s') : s'.Indexed n := by
  obtain ⟨hr, rfl⟩ := ite_some_none_eq_some.1 hs
  have hsender := sender_of_closeLocked (h.closers c r hr.1) hr.2 hok
  refine (h.used hsender).modify (h.index c) fun r' hr' => ?_
  exact h.closers c r' (mem_of_mem_erase hr')

theorem receiverRemove (hs : s.receiverRemove c = some s') : s'.Indexed n := by
  obtain ⟨hc, rfl⟩ := ite_some_none_eq_some.1 hs
  refine h.used ?_
  -- the receiver gets a connection after the sender
  generalize (s.conns c).phase = p at hc ⊢
  cases p <;> first | rfl | cases hc

theorem step (hn : 0 < n) {a : Action} (hok : inTurn s a = true)
    (hs : s.step a = some s') : s'.Indexed n := by
  cases a with
  | build c needHB | newConnection c => exact h.build rfl hs
  | addHeartbeat c => exact h.addHeartbeat hs
  | lock c => exact h.lock hs
  | onConnect c | connectFailed c => exact h.advance hs rfl nofun
  | addSender c | connectDone c => exact h.addConnection hn hs rfl
  | addReceiver c | unlock c => exact h.advance hs rfl fun _ => rfl
  | setClosing c => exact h.setClosing hs
  | setClosed c => exact h.setClosed hs
  | send r c => exact h.send hok hs
  | closeOpen r c => exact h.closeOpen hs
  | closeLocked r c => exact h.closeLocked hok hs
  | receiverRemove c => exact h.receiverRemove hs

end

end State.Indexed

theorem indexed_init (n : UInt16) : (State.init n).Indexed n :=
  ⟨rfl, nofun, nofun, nofun⟩

/-- **Sender thread indices are valid** in every run in which those who can be early wait. -/
theorem index_valid (threadNum : UInt16) (hn : 0 < threadNum) (actions : List Action) (s : State)
    (h : run (restrict inTurn State.step) (State.init threadNum) actions = some s) :
    ∀ i ∈ s.uses, 0 ≤ i ∧ i < threadNum.toNat :=
  (run_restrict_invariant (I := State.Indexed threadNum)
    (fun _ _ _ hI hok hs => hI.step hn hok hs) (indexed_init threadNum) h).uses

def wholeLife : List Action :=
  [.build 0 true, .addHeartbeat 0, .lock 0, .onConnect 0, .closeOpen .connectHandler 0,
    .addSender 0, .send .connectHandler 0, .addReceiver 0, .send .messageHandler 0, .unlock 0,
    .send .heartbeat 0, .send .application 0, .closeLocked .connectHandler 0, .setClosing 0,
    .receiverRemove 0, .setClosed 0, .newConnection 1, .connectDone 1, .send .client 1,
    .closeOpen .clearChannel 1, .closeLocked .clearChannel 1]

theorem index_valid_wholeLife :
    let s := (run (restrict inTurn State.step) (State.init 4) wholeLife).get (by decide +kernel)
    s.uses = [0, 0, 0, 0, 0, 0, 1, 1] ∧ ∀ i ∈ s.uses, 0 ≤ i ∧ i < (4 : UInt16).toNat :=
  ⟨by decide +kernel, index_valid 4 (by decide) wholeLife _ (some_get _).symm⟩

/-- A handler of `CONNECT` sends before the connection is added to the IO. -/
def earlyHandler : List Action :=
  [.build 0 false, .lock 0, .onConnect 0, .send .connectHandler 0]

def earlyHeartbeat : List Action :=
  [.build 0 true, .addHeartbeat 0, .send .heartbeat 0, .closeOpen .heartbeat 0,
    .closeLocked .heartbeat 0]

/-- A channel is cleared with a connection that is still being made and one that could not
be made. -/
def earlyClear : List Action :=
  [.newConnection 0, .closeOpen .clearChannel 0, .closeLocked .clearChannel 0, .newConnection 1,
    .connectFailed 1, .closeOpen .clearChannel 1, .closeLocked .clearChannel 1]

/-- **`threadDatas_[-1]`:** each of the three uses the index of a connection that was not
added. -/
theorem index_unset :
    (run State.step (State.init 4) earlyHandler).map State.uses = some [-1] ∧
      (run State.step (State.init 4) earlyHeartbeat).map State.uses = some [-1, -1] ∧
      (run State.step (State.init 4) earlyClear).map State.uses = some [-1, -1] := by
  decide +kernel

end Corpc.ThreadIndex
