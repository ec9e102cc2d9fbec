/-
# Where a reconnecting client starts to count

`TcpClient::connect` and `UdpClient::connect` in `corpc_message_client.cpp` give the new connection
to the IO, whose receiver may decode frames on it from then on, and after that copy the counter of
the old connection with `con->setRecvSerial(connection_->getRecvSerial())`.
-/

import Corpc.Message.Acknowledge

namespace Corpc.Message

open Corpc.Basis Wire Option

variable {μ : Type}

/-- The next statement of `connect`, from `buildAndAddConnection` on. -/
inductive ConnectPc
  /-- `buildConnection(fd)`, `setPipeline`. -/
  | build
  /-- `onConnect()`, `io_->addConnection(connection)`. -/
  | add
  /-- `connection_->getRecvSerial()`. -/
  | read
  /-- `con->setRecvSerial(serial)`. -/
  | set (serial : UInt32)
  /-- `connection_ = con`. -/
  | store
  | done
  deriving DecidableEq

def ConnectPc.added : ConnectPc → Bool
  | .build | .add => false
  | _ => true

def ConnectPc.hasRead : ConnectPc → Bool
  | .build | .add | .read => false
  | _ => true

def ConnectPc.handedOver : ConnectPc → Bool
  | .store | .done => true
  | _ => false

/-- A call of `connect`, the two connections, and what is to be shown of them: `firstCheck` has the
serial that the first checked frame was compared with, beside the one after the old counter. -/
structure Reconnect (μ : Type) where
  old : Connection μ
  con : Option (Connection μ)
  pc : ConnectPc
  decoded : Bool
  firstCheck : Option (UInt32 × UInt32)
  changed : Bool

/-- `connect` with an earlier connection in any state. -/
def Reconnect.init (old : Connection μ) : Reconnect μ := ⟨old, none, .build, false, none, false⟩

/-- The frames whose serial `decode` compares with the counter: all data frames where
serials are on, and jumps. -/
def serialChecked (terminal : MessageTerminal μ) (head : List UInt8) : Bool :=
  if headType head < 0 then headType head == msgTypeJumpSerial else terminal.enableSerial

inductive ReconnectEvent
  /-- The next statement of `connect`. -/
  | connect (crypter : Option Crypter)
  | decodeOld (mtime : ℕ) (head body : List UInt8)
  | decodeNew (mtime : ℕ) (head body : List UInt8)

def Reconnect.connect (s : Reconnect μ) (crypter : Option Crypter) : Option (Reconnect μ) :=
  match s.pc with
  | .build => some { s with con := some (buildConnection s.old.terminal crypter), pc := .add }
  | .add => some { s with pc := .read }
  | .read => some { s with pc := .set s.old.recvSerial }
  | .set serial => s.con.map fun con =>
    { s with con := some { con with recvSerial := serial }, pc := .store,
             changed := s.changed || (s.decoded && con.recvSerial != serial) }
  | .store => some { s with pc := .done }
  | .done => none

def Reconnect.decodeNew (s : Reconnect μ) (con : Connection μ) (mtime : ℕ)
    (head body : List UInt8) : Option (Reconnect μ) :=
  (decode mtime con head body).map fun (con', _) =>
    { s with
      con := some con', decoded := true,
      firstCheck :=
        if s.firstCheck.isNone && serialChecked con.terminal head then
          some (con.recvSerial + 1, s.old.recvSerial + 1)
        else s.firstCheck }

def Reconnect.step (s : Reconnect μ) : ReconnectEvent → Option (Reconnect μ)
  | .connect crypter => s.connect crypter
  | .decodeOld mtime head body =>
    if s.old.decodeError then none
    else (decode mtime s.old head body).map fun (old', _) => { s with old := old' }
  | .decodeNew mtime head body =>
    if s.pc.added then s.con.bind fun con =>
      if con.decodeError then none else s.decodeNew con mtime head body
    else none

/-- The new connection decodes no frame before the counter is handed over, and the old one
none that counts after it was read. -/
def Reconnect.inOrder (s : Reconnect μ) : ReconnectEvent → Bool
  | .connect _ => true
  | .decodeOld _ head _ => !s.pc.hasRead || !serialChecked s.old.terminal head
  | .decodeNew _ _ _ => s.pc.handedOver

theorem recvSerial_of_unchecked {mtime : ℕ} {conn conn' : Connection μ} {head body : List UInt8}
    {task : Option (MessageWorkerTask μ)} (hu : serialChecked conn.terminal head = false)
    (h : decode mtime conn head body = some (conn', task)) :
    conn'.recvSerial = conn.recvSerial := by
  unfold serialChecked at hu
  by_cases ht : headType head < 0
  · rw [if_pos ht] at hu
    have hj : headType head ≠ msgTypeJumpSerial := by simpa using hu
    rcases decode_system ht h with ⟨hj', -⟩ | ⟨hj', -⟩ | ⟨-, t, rfl⟩
    · exact absurd hj' hj
    · exact absurd hj' hj
    · rfl
  · rw [if_neg ht] at hu
    unfold decode at h
    rw [if_neg ht, if_neg (by simp [hu])] at h
    rcases decodeBody_spec h with ⟨-, rfl, -⟩ | ⟨-, rfl, -⟩
    · rfl
    · rfl

structure Reconnect.Inherits (s : Reconnect μ) : Prop where
  read : ∀ serial, s.pc = .set serial → serial = s.old.recvSerial
  untouched : s.pc.handedOver = false → s.decoded = false ∧ s.firstCheck = none
  inherited : s.pc.handedOver = true → s.firstCheck = none →
    ∀ con ∈ s.con, con.recvSerial = s.old.recvSerial
  compared : ∀ need old, s.firstCheck = some (need, old) → need = old
  unchanged : s.changed = false

theorem Reconnect.inherits_init (old : Connection μ) : (Reconnect.init old).Inherits where
  read := nofun
  untouched _ := ⟨rfl, rfl⟩
  inherited := nofun
  compared := nofun
  unchanged := rfl

theorem Reconnect.Inherits.connect {s s' : Reconnect μ} {crypter : Option Crypter}
    (h : s.Inherits) (hs : s.connect crypter = some s') : s'.Inherits := by
  obtain ⟨hread, huntouched, hinherited, hcompared, hunchanged⟩ := h
  unfold Reconnect.connect at hs
  rcases hpc : s.pc with _ | _ | _ | serial | _ | _ <;>
    simp only [hpc, ConnectPc.handedOver, some.injEq, reduceCtorEq, forall_const]
      at hs huntouched hinherited hread
  · subst hs
    exact ⟨nofun, fun _ => huntouched, nofun, hcompared, hunchanged⟩
  · subst hs
    exact ⟨nofun, fun _ => huntouched, nofun, hcompared, hunchanged⟩
  · subst hs
    refine ⟨?_, fun _ => huntouched, nofun, hcompared, hunchanged⟩
    rintro serial ⟨⟩
    rfl
  · obtain ⟨con, hcon, rfl⟩ := map_eq_some_iff.1 hs
    obtain ⟨hdec, hfirst⟩ := huntouched
    refine ⟨nofun, nofun, ?_, hcompared, ?_⟩
    · rintro - - con' ⟨⟩
      exact hread serial rfl
    · simp [hunchanged, hdec]
  · subst hs
    exact ⟨nofun, nofun, fun _ => hinherited, hcompared, hunchanged⟩

theorem Reconnect.Inherits.step {s s' : Reconnect μ} {e : ReconnectEvent} (h : s.Inherits)
    (hok : s.inOrder e = true) (hs : s.step e = some s') : s'.Inherits := by
  rcases e with crypter | ⟨mtime, head, body⟩ | ⟨mtime, head, body⟩
  · exact h.connect hs
  · simp only [Reconnect.step] at hs
    split_ifs at hs
    obtain ⟨⟨old', task⟩, hd, rfl⟩ := map_eq_some_iff.1 hs
    have hkept : s.pc.hasRead = true → old'.recvSerial = s.old.recvSerial := by
      intro hr
      have hu : serialChecked s.old.terminal head = false := by
        simpa [Reconnect.inOrder, hr] using hok
      exact recvSerial_of_unchecked hu hd
    refine ⟨fun serial hpc => ?_, h.untouched, fun ho hf con hc => ?_, h.compared, h.unchanged⟩
    · exact (h.read serial hpc).trans (hkept (by rw [hpc]; rfl)).symm
    · have hr : s.pc.hasRead = true := by
        rcases hpc : s.pc with _ | _ | _ | _ | _ | _ <;> simp_all [ConnectPc.handedOver,
          ConnectPc.hasRead]
      exact (h.inherited ho hf con hc).trans (hkept hr).symm
  · have ho : s.pc.handedOver = true := hok
    simp only [Reconnect.step] at hs
    split_ifs at hs
    obtain ⟨con, hcon, hs⟩ := bind_eq_some_iff.1 hs
    split_ifs at hs
    obtain ⟨⟨con', task⟩, hd, rfl⟩ := map_eq_some_iff.1 hs
    refine ⟨h.read, fun hn => absurd (ho.symm.trans hn) (by decide), ?_, ?_, h.unchanged⟩
    · intro _ hf con₂ hc
      cases hc
      dsimp only at hf
      split_ifs at hf with hc'
      have hu : serialChecked con.terminal head = false := by simpa [hf] using hc'
      rw [recvSerial_of_unchecked hu hd]
      exact h.inherited ho hf con hcon
    · intro need old hf
      dsimp only at hf
      split_ifs at hf with hc'
      · obtain ⟨rfl, rfl⟩ := Prod.mk.inj (some.inj hf)
        have hnone : s.firstCheck = none := by
          simp only [Bool.and_eq_true, isNone_iff_eq_none] at hc'
          exact hc'.1
        rw [h.inherited ho hnone con hcon]
      · exact h.compared need old hf

/-- **A reconnecting client goes on counting where the old connection stopped**, if no frame is
decoded on the new connection before `setRecvSerial` and none counts on the old one after
`getRecvSerial`. -/
theorem reconnect_inherits_serial (old : Connection μ) (es : List ReconnectEvent) (s : Reconnect μ)
    (h : run (restrict Reconnect.inOrder Reconnect.step) (Reconnect.init old) es = some s) :
    (∀ need after, s.firstCheck = some (need, after) → need = after) ∧ s.changed = false := by
  have hs : s.Inherits := run_restrict_invariant (I := Reconnect.Inherits)
    (fun _ _ _ hI hok hstep => hI.step hok hstep) (Reconnect.inherits_init old) h
  exact ⟨hs.compared, hs.unchanged⟩

/-- The connection at serial 5 is followed by one whose first frame has serial 6. -/
theorem reconnect_inherits_serial_five :
    ∃ s, run (restrict Reconnect.inOrder Reconnect.step) (Reconnect.init connAtFive)
        [.connect none, .connect none, .connect none, .connect none, .connect none,
          .decodeNew 0 (headOfType1 6) []] = some s ∧
      s.firstCheck = some (6, 6) ∧ s.changed = false := by
  exact exists_run_and (by decide +kernel) fun s hs _ =>
    (reconnect_inherits_serial connAtFive _ s hs).2

/-- The receiver is faster than `connect`: serial 6 is compared with 1 and refused; serial 1, an old
message, is taken, and the copy sets the counter from 1 to 5. -/
theorem reconnect_forgets :
    (∃ s, run Reconnect.step (Reconnect.init connAtFive)
        [.connect none, .connect none, .decodeNew 0 (headOfType1 6) []] = some s ∧
      s.firstCheck = some (1, 6) ∧ s.con.any (·.decodeError) = true) ∧
    ∃ s, run Reconnect.step (Reconnect.init connAtFive)
        [.connect none, .connect none, .decodeNew 0 (headOfType1 1) [], .connect none,
          .connect none] = some s ∧
      s.firstCheck = some (1, 6) ∧ s.changed = true := by
  constructor
  · exact exists_run_of_decide (by decide +kernel)
  · exact exists_run_of_decide (by decide +kernel)

end Corpc.Message
