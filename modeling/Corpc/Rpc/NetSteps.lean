/-
# The steps of the client on top of its IO

The actions of `Rpc.Net`, branch by branch, as `Rpc.Steps` has them for the client alone.
-/

import Corpc.Rpc.Net
import Corpc.Rpc.Steps

namespace Corpc.Rpc

open Corpc.Basis Io Option Bool

def Action.changesConnections : Action → Bool
  | .client .takeConnectionTask | .client .clearConnection | .client (.connectDone _)
  | .client .drainDone | .client (.onClose _) => true
  | _ => false

theorem State.choose_eq_none_iff {s : State} {channel fresh : ℕ} :
    s.choose channel fresh = some none ↔ (s.channels channel).connections = [] := by
  unfold State.choose
  split_ifs with hnil
  · exact iff_of_true rfl hnil
  · refine iff_of_false ?_ hnil
    intro h
    obtain ⟨r, hr, hst⟩ := map_eq_some_iff.1 h
    split_ifs at hst with hclosed
    rcases getNextConnection_spec hr with ⟨chs, he, hne⟩ | ⟨chs, -, hc, he⟩
    · rw [he] at hclosed
      exact hne hclosed
    · rw [he, hc] at hclosed
      simp [State.modifyConn] at hclosed

namespace Net

/-- The channel of the task that `taskHandleRoutine` takes in an action. -/
def dequeues (s : Net) : NetAction → Option ℕ
  | .rpc (.client (.takeTask k _ _)) =>
    if (s.rpc.tasks k).place = .taskQueue then (s.rpc.tasks k).channel else none
  | .takeOneWay k _ =>
    if k < s.nextOneWay ∧ (s.oneWays k).place = .taskQueue then some (s.oneWays k).channel
    else none
  | _ => none

inductive Step (s : Net) : NetAction → Net → Prop where
  /-- an action of `Rpc.State` that changes no connection; a call is made on a channel that is
  not released, and the server answers what it got -/
  | rpc {a : Action} {s' : Net} (ha : a.changesConnections = false)
      (hclear : ∀ ch, a ≠ .client (.clearChannel ch))
      (hcall : ∀ co ch timeout, a = .env (.callMethod co ch timeout) → s.released ch = false)
      (hrespond : ∀ k f c, a = .client (.respond k f) → (s.rpc.tasks k).request = .sent c →
        .call k ∈ (s.io c).encoded) (hs : s.rpcStep a = some s') : Step s (.rpc a) s'
  | takeConnectionTask {rpc : State} (hs : s.rpc.step (.client .takeConnectionTask) = some rpc) :
      Step s (.rpc (.client .takeConnectionTask)) { s with rpc }
  | clear {c : ℕ} {rpc : State} (hpc : s.rpc.connection = .closing c)
      (hs : s.rpc.step (.client .clearConnection) = some rpc) :
      Step s (.rpc (.client .clearConnection)) ({ s with rpc }.runDone (s.io c).conn.datas)
  | refuse {c err : ℕ} {outcome : ConnectOutcome} {rpc : State}
      (hpc : s.rpc.connection = .connecting c) (hf : outcome.failure = some err)
      (hs : s.rpc.step (.client (.connectDone outcome)) = some rpc) :
      Step s (.rpc (.client (.connectDone outcome))) ({ s with rpc }.refuse c)
  | establish {c : ℕ} {outcome : ConnectOutcome} {rpc : State} {t s' : Net}
      (hpc : s.rpc.connection = .connecting c) (hf : outcome.failure = none)
      (hs : s.rpc.step (.client (.connectDone outcome)) = some rpc)
      (ht : { s with rpc }.ioStep c .addSender = some t)
      (hs' : t.ioStep c .addReceiver = some s') :
      Step s (.rpc (.client (.connectDone outcome))) s'
  | drainDone {c : ℕ} {rpc : State} (hpc : s.rpc.connection = .drain c)
      (hw : s.anyWaiting c = false) (hs : s.rpc.step (.client .drainDone) = some rpc) :
      Step s (.rpc (.client .drainDone)) { s with rpc }
  | clearChannel {ch : ℕ} {rest : List ℕ} {rpc : State} (hq : s.clearQueue = ch :: rest)
      (hs : s.rpc.step (.client (.clearChannel ch)) = some rpc) :
      Step s (.rpc (.client (.clearChannel ch))) { s with rpc, clearQueue := rest }
  | onClose {c : ℕ} {rpc : State} {s' : Net}
      (hs : s.rpc.step (.client (.onClose c)) = some rpc)
      (hs' : { s with rpc }.ioStep c .onClose = some s') : Step s (.rpc (.client (.onClose c))) s'
  | crash {a : NetAction} {ch : ℕ} (ha : s.dequeues a = some ch)
      (hnil : (s.rpc.channels ch).connections = []) : Step s a { s with crashed := true }
  | oneWayCall {ch : ℕ} (hr : s.released ch = false) : Step s (.oneWayCall ch) { s with
      nextOneWay := s.nextOneWay + 1
      oneWays := Function.update s.oneWays s.nextOneWay ⟨ch, .taskQueue⟩ }
  | wait {k fresh : ℕ} {r : State × ℕ} (hk : k < s.nextOneWay)
      (hp : (s.oneWays k).place = .taskQueue)
      (hr : s.rpc.choose (s.oneWays k).channel fresh = some (some r))
      (hst : (r.1.conns r.2).st = .connecting) :
      Step s (.takeOneWay k fresh) ({ s with rpc := r.1 }.moveOneWay k (.waitSend r.2))
  | send {k fresh : ℕ} {r : State × ℕ} {s' : Net} (hk : k < s.nextOneWay)
      (hp : (s.oneWays k).place = .taskQueue)
      (hr : s.rpc.choose (s.oneWays k).channel fresh = some (some r))
      (hst : (r.1.conns r.2).st = .connected)
      (hs : ({ s with rpc := r.1 }.moveOneWay k (.sent r.2)).ioStep r.2 (.send (.oneWay k)) =
        some s') : Step s (.takeOneWay k fresh) s'
  | drain {k c : ℕ} {s' : Net} (hpc : s.rpc.connection = .drain c) (hk : k < s.nextOneWay)
      (hp : (s.oneWays k).place = .waitSend c)
      (hs : (s.moveOneWay k (.sent c)).ioStep c (.send (.oneWay k)) = some s') :
      Step s (.drainOneWay k) s'
  | release (ch : ℕ) : Step s (.release ch) { s with
      released := Function.update s.released ch true
      clearQueue := s.clearQueue ++ [ch] }
  | io {c : ℕ} {a : Io.Action Item} {s' : Net} (ha : ofClient a = false)
      (hs : s.ioStep c a = some s') : Step s (.io c a) s'

variable {s s' : Net}

theorem rpcStep_of_changes {a : Action} (ha : a.changesConnections = true)
    (hs : s.rpcStep a = some s') : ∃ rpc, s.rpc.step a = some rpc ∧ s' = { s with rpc } := by
  obtain ⟨rpc, hrpc, hs⟩ := bind_eq_some_iff.1 hs
  refine ⟨rpc, hrpc, ?_⟩
  cases a with
  | env a => cases ha
  | client a =>
    cases a with
    | takeConnectionTask | clearConnection | connectDone | drainDone | onClose =>
      exact (some.inj hs).symm
    | _ => cases ha

theorem takeTask_step {k fresh : ℕ} {late : Bool} (hs : s.takeTask k fresh late = some s') :
    s.Step (.rpc (.client (.takeTask k fresh late))) s' := by
  unfold takeTask at hs
  split_ifs at hs with hk
  split at hs
  · cases hs
  · rename_i channel hch
    obtain ⟨r, hr, hs⟩ := bind_eq_some_iff.1 hs
    cases r with
    | none =>
      cases hs
      exact .crash ((if_pos hk.2.2).trans hch) (State.choose_eq_none_iff.1 hr)
    | some r => exact .rpc rfl nofun nofun nofun hs

theorem takeOneWay_step {k fresh : ℕ} (hs : s.takeOneWay k fresh = some s') :
    s.Step (.takeOneWay k fresh) s' := by
  unfold takeOneWay at hs
  split_ifs at hs with hk
  obtain ⟨-, -, hlt, hp⟩ := hk
  obtain ⟨r, hr, hs⟩ := bind_eq_some_iff.1 hs
  cases r with
  | none =>
    cases hs
    exact .crash (if_pos ⟨hlt, hp⟩) (State.choose_eq_none_iff.1 hr)
  | some r =>
    have hopen := (State.choose_spec hr).2
    dsimp only at hs
    split_ifs at hs with hst
    · cases hs
      exact .wait hlt hp hr hst
    · refine .send hlt hp hr ?_ hs
      cases hc : (r.1.conns r.2).st with
      | closed => exact absurd hc hopen
      | connecting => exact absurd hc hst
      | connected => rfl

theorem rpc_step {a : Action} (hs : s.step (.rpc a) = some s') : s.Step (.rpc a) s' := by
  unfold step at hs
  split_ifs at hs
  cases a with
  | env a =>
    cases a with
    | callMethod co channel timeout =>
      obtain ⟨hr, hs⟩ := ite_none_left_eq_some.1 hs
      refine .rpc rfl nofun ?_ nofun hs
      rintro co' ch timeout' ⟨⟩
      exact eq_false_iff.2 hr
    | _ => exact .rpc rfl nofun nofun nofun hs
  | client a =>
    cases a with
    | takeTask => exact takeTask_step hs
    | takeConnectionTask =>
      have hs : s.rpcStep (.client .takeConnectionTask) = some s' := by
        simp only [takeConnectionTask] at hs
        split at hs
        · exact (ite_none_left_eq_some.1 hs).2
        · exact hs
      obtain ⟨rpc, hrpc, rfl⟩ := rpcStep_of_changes rfl hs
      exact .takeConnectionTask hrpc
    | clearConnection =>
      simp only [clearConnection] at hs
      split at hs
      · rename_i hpc
        obtain ⟨t, ht, rfl⟩ := map_eq_some_iff.1 hs
        obtain ⟨rpc, hrpc, rfl⟩ := rpcStep_of_changes rfl ht
        exact .clear hpc hrpc
      · cases hs
    | connectDone outcome =>
      simp only [connectDone] at hs
      split at hs
      · rename_i hpc
        obtain ⟨t, ht, hs⟩ := bind_eq_some_iff.1 hs
        obtain ⟨rpc, hrpc, rfl⟩ := rpcStep_of_changes rfl ht
        split at hs
        · rename_i hf
          cases hs
          exact .refuse hpc hf hrpc
        · rename_i hf
          obtain ⟨t, ht, hs⟩ := bind_eq_some_iff.1 hs
          exact .establish hpc hf hrpc ht hs
      · cases hs
    | drainDone =>
      simp only [drainDone] at hs
      split at hs
      · rename_i hpc
        obtain ⟨hw, hs⟩ := ite_none_left_eq_some.1 hs
        obtain ⟨rpc, hrpc, rfl⟩ := rpcStep_of_changes rfl hs
        exact .drainDone hpc (eq_false_iff.2 hw) hrpc
      · cases hs
    | clearChannel channel =>
      simp only [clearChannel] at hs
      split at hs
      · cases hs
      · rename_i next rest hq
        split_ifs at hs with hc
        subst hc
        obtain ⟨t, ht, rfl⟩ := map_eq_some_iff.1 hs
        obtain ⟨rpc, hrpc, ht⟩ := bind_eq_some_iff.1 ht
        cases ht
        exact .clearChannel hq hrpc
    | onClose c =>
      obtain ⟨t, ht, hs⟩ := bind_eq_some_iff.1 hs
      obtain ⟨rpc, hrpc, rfl⟩ := rpcStep_of_changes rfl ht
      exact .onClose hrpc hs
    | respond j f =>
      simp only [respond] at hs
      split at hs
      · rename_i c hsent
        obtain ⟨hmem, hs⟩ := ite_none_right_eq_some.1 hs
        refine .rpc rfl nofun nofun ?_ hs
        rintro k f d ⟨⟩ hd
        rw [hsent] at hd
        cases hd
        exact hmem
      · cases hs
    | _ => exact .rpc rfl nofun nofun nofun hs

/-- **Every action takes one of the branches.** -/
theorem step_step {a : NetAction} (hs : s.step a = some s') : s.Step a s' := by
  cases a with
  | rpc => exact rpc_step hs
  | oneWayCall ch =>
    obtain ⟨-, hs⟩ := ite_none_left_eq_some.1 hs
    obtain ⟨hr, hs⟩ := ite_none_left_eq_some.1 hs
    exact some.inj hs ▸ .oneWayCall (eq_false_iff.2 hr)
  | takeOneWay => exact takeOneWay_step (ite_none_left_eq_some.1 hs).2
  | drainOneWay k =>
    replace hs := (ite_none_left_eq_some.1 hs).2
    simp only [drainOneWay] at hs
    split at hs
    · rename_i hpc
      obtain ⟨⟨hk, hp⟩, hs⟩ := ite_none_right_eq_some.1 hs
      exact .drain hpc hk hp hs
    · cases hs
  | release ch =>
    obtain ⟨-, hs⟩ := ite_none_left_eq_some.1 hs
    obtain ⟨-, hs⟩ := ite_none_left_eq_some.1 hs
    exact some.inj hs ▸ .release ch
  | io c a =>
    obtain ⟨-, hs⟩ := ite_none_left_eq_some.1 hs
    obtain ⟨ha, hs⟩ := ite_none_left_eq_some.1 hs
    exact .io (eq_false_iff.2 ha) hs

end Net

end Corpc.Rpc
