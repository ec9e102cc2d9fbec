/-
# Calls on a released channel

A task can be in `taskQueue_` whose channel was cleared.
-/

import Corpc.Rpc.Moves
import Corpc.Rpc.NetSteps

namespace Corpc.Rpc

open Corpc.Basis Io Function List Option

/-- The number of connections of a new `ChannelCore`. -/
def ChannelCore.connectNum (connectNum : ℕ) : ℕ := if connectNum = 0 then 1 else connectNum

theorem ChannelCore.connectNum_pos (n : ℕ) : 0 < connectNum n := by
  unfold connectNum
  split_ifs <;> omega

namespace State

variable {s s' : State} {channel : ℕ}

theorem length_getNextConnection {fresh : ℕ} {r : State × ℕ}
    (h : s.getNextConnection channel fresh = some r) (ch : ℕ) :
    (r.1.channels ch).connections.length = (s.channels ch).connections.length := by
  have hnew : ∀ i, s.newConnection channel i fresh = some r →
      (r.1.channels ch).connections.length = (s.channels ch).connections.length := by
    intro i hi
    unfold newConnection at hi
    split_ifs at hi
    cases hi
    simp only [update_apply]
    split_ifs with hch
    · rw [length_set, hch]
    · rfl
  unfold getNextConnection at h
  dsimp only at h
  split_ifs at h
  split at h
  · split_ifs at h
    · exact hnew _ h
    · cases h
      simp only [update_apply]
      split_ifs with hch
      · rw [hch]
      · rfl
  · exact hnew _ h

theorem length_of_step {a : Action} (hs : s.step a = some s')
    (ha : a ≠ .client (.clearChannel channel)) :
    (s'.channels channel).connections.length = (s.channels channel).connections.length := by
  cases a with
  | env a => rw [congrArg Client.channels (envStep_frame hs).client]
  | client a =>
    cases clientStep_step hs with
    | takeTask _ _ hr hs =>
      refine Eq.trans ?_ (length_getNextConnection hr channel)
      cases hs with
      | queue | drop | wait | submit => rfl
    | clearChannel ch =>
      have hne : channel ≠ ch := by
        rintro rfl
        exact ha rfl
      simp only [update_of_ne hne]
    | _ => rfl

theorem next_of_envStep {a : EnvAction} (hs : s.envStep a = some s') (hn : s.next < s'.next) :
    ∃ co timeout ch p, s'.tasks = update s.tasks s.next (s.newTask co timeout ch p) ∧
      ∀ channel, ch = some channel → a = .callMethod co channel timeout := by
  cases envStep_step hs with
  | @callMethod co channel timeout =>
    exact ⟨co, timeout, some channel, .taskQueue, rfl, fun _ he => some.inj he ▸ rfl⟩
  | @park co timeout => exact ⟨co, timeout, none, .pushing, rfl, nofun⟩
  | @push co timeout => exact ⟨co, timeout, none, .requestQueue, rfl, nofun⟩
  | resumeCall hs =>
    obtain ⟨err, w, -, ⟨-, rfl⟩ | ⟨-, n, -, -, rfl⟩ | ⟨-, rfl, -⟩⟩ := resumeCall_spec hs <;>
      exact absurd hn (lt_irrefl _)
  | _ => exact absurd hn (lt_irrefl _)

theorem taskQueue_of_step {a : Action} (hs : s.step a = some s') {k : ℕ}
    (hp : (s'.tasks k).place = .taskQueue) (hch : (s'.tasks k).channel = some channel) :
    (s.tasks k).place = .taskQueue ∧ (s.tasks k).channel = some channel ∨
      ∃ co timeout, a = .env (.callMethod co channel timeout) := by
  cases a with
  | env a =>
    by_cases hn : s.next < s'.next
    · obtain ⟨co, timeout, ch, p, he, hcall⟩ := next_of_envStep hs hn
      rw [he] at hp hch
      simp only [update_apply] at hp hch
      split_ifs at hp hch
      · exact .inr ⟨co, timeout, by rw [hcall channel hch]⟩
      · exact .inl ⟨hp, hch⟩
    · have hmove := (envStep_frame hs).tasks k
      generalize s'.tasks k = t at hmove hp hch
      cases hmove with
      | stay => exact .inl ⟨hp, hch⟩
      | resume | push => cases hp
      | make _ hlt => exact absurd hlt hn
  | client a =>
    have hmove := (clientStep_frame hs).tasks k
    rw [hmove.const.2.2.1] at hch
    refine .inl ⟨?_, hch⟩
    generalize s'.tasks k = t at hmove hp
    cases hmove with
    | stay | answer | miss => exact hp
    | complete _ _ _ _ _ _ ht =>
      rw [(complete_spec ht).2.1] at hp
      cases hp
    | _ => cases hp

theorem connections_of_takeTask {k fresh : ℕ} {late : Bool}
    (hs : s.takeTask k fresh late = some s') (hch : (s.tasks k).channel = some channel) :
    (s.channels channel).connections ≠ [] := by
  intro hnil
  unfold takeTask at hs
  rw [hch] at hs
  simp [getNextConnection, hnil] at hs

end State

namespace Net

/-- An action that leaves the released channels alone, and puts no one-way call into
`taskQueue_`. -/
structure Frame (s s' : Net) : Prop where
  clearQueue : s'.clearQueue = s.clearQueue
  released : s'.released = s.released
  crashed : s'.crashed = s.crashed
  nextOneWay : s'.nextOneWay = s.nextOneWay
  oneWays : ∀ k, (s'.oneWays k).channel = (s.oneWays k).channel ∧
    ((s'.oneWays k).place = .taskQueue → (s.oneWays k).place = .taskQueue)

namespace Frame

variable {s s' s'' : Net}

theorem refl (s : Net) : s.Frame s := ⟨rfl, rfl, rfl, rfl, fun _ => ⟨rfl, id⟩⟩

theorem trans (h : s.Frame s') (h' : s'.Frame s'') : s.Frame s'' where
  clearQueue := h'.clearQueue.trans h.clearQueue
  released := h'.released.trans h.released
  crashed := h'.crashed.trans h.crashed
  nextOneWay := h'.nextOneWay.trans h.nextOneWay
  oneWays k := ⟨(h'.oneWays k).1.trans (h.oneWays k).1, (h.oneWays k).2 ∘ (h'.oneWays k).2⟩

theorem ioStep {c : ℕ} {a : Io.Action Item} (hs : s.ioStep c a = some s') :
    s.Frame s' ∧ s'.rpc = s.rpc := by
  obtain ⟨d, -, rfl⟩ := map_eq_some_iff.1 hs
  exact ⟨⟨rfl, rfl, rfl, rfl, fun _ => ⟨rfl, id⟩⟩, rfl⟩

theorem rpcStep {a : Action} (hs : s.rpcStep a = some s') :
    s.Frame s' ∧ s.rpc.step a = some s'.rpc := by
  obtain ⟨rpc, hrpc, hs⟩ := bind_eq_some_iff.1 hs
  split at hs
  · obtain ⟨hf, he⟩ := ioStep hs
    rw [he]
    exact ⟨⟨hf.clearQueue, hf.released, hf.crashed, hf.nextOneWay, hf.oneWays⟩, hrpc⟩
  · cases hs
    exact ⟨⟨rfl, rfl, rfl, rfl, fun _ => ⟨rfl, id⟩⟩, hrpc⟩

theorem moveOneWay (s : Net) (k : ℕ) (p : OneWayPlace) (hp : p ≠ .taskQueue) :
    s.Frame (s.moveOneWay k p) := by
  refine ⟨rfl, rfl, rfl, rfl, fun j => ?_⟩
  simp only [Net.moveOneWay, update_apply]
  split_ifs with hj
  · rw [hj]
    exact ⟨rfl, fun he => absurd he hp⟩
  · exact ⟨rfl, id⟩

theorem refuse (s : Net) (c : ℕ) : s.Frame (s.refuse c) := by
  refine ⟨rfl, rfl, rfl, rfl, fun j => ?_⟩
  simp only [Net.refuse]
  split_ifs
  · exact ⟨rfl, nofun⟩
  · exact ⟨rfl, id⟩

end Frame

/-- What an action does to the released channels and the tasks of `taskQueue_`. -/
inductive Move (s : Net) : NetAction → Net → Prop where
  /-- an action of the client that clears no channel; a call is made on a channel that is not
  released -/
  | rpc {b : Action} {s' : Net} (hs : s.rpc.step b = some s'.rpc) (hf : s.Frame s')
      (hclear : ∀ ch, b ≠ .client (.clearChannel ch))
      (hcall : ∀ co ch timeout, b = .env (.callMethod co ch timeout) → s.released ch = false) :
      Move s (.rpc b) s'
  | clear {ch : ℕ} {rest : List ℕ} {rpc : State} (hq : s.clearQueue = ch :: rest)
      (hs : s.rpc.step (.client (.clearChannel ch)) = some rpc) :
      Move s (.rpc (.client (.clearChannel ch))) { s with rpc, clearQueue := rest }
  | crash {a : NetAction} {ch : ℕ} (ha : s.dequeues a = some ch)
      (hnil : (s.rpc.channels ch).connections = []) : Move s a { s with crashed := true }
  | choose {k fresh c : ℕ} {s' : Net} (hf : s.Frame s')
      (hne : (s.rpc.channels (s.oneWays k).channel).connections ≠ [])
      (hr : s.rpc.getNextConnection (s.oneWays k).channel fresh = some (s'.rpc, c)) :
      Move s (.takeOneWay k fresh) s'
  | quiet {a : NetAction} {s' : Net} (ha : s.dequeues a = none) (hf : s.Frame s')
      (he : s'.rpc = s.rpc) : Move s a s'
  | make {ch : ℕ} (hr : s.released ch = false) : Move s (.oneWayCall ch) { s with
      nextOneWay := s.nextOneWay + 1
      oneWays := update s.oneWays s.nextOneWay ⟨ch, .taskQueue⟩ }
  | release (ch : ℕ) : Move s (.release ch) { s with
      released := update s.released ch true
      clearQueue := s.clearQueue ++ [ch] }

variable {s s' : Net}

theorem Move.ofChoice {k fresh : ℕ} {r : State × ℕ} {p : OneWayPlace}
    (hr : s.rpc.choose (s.oneWays k).channel fresh = some (some r)) (hp : p ≠ .taskQueue)
    (hf : ({ s with rpc := r.1 }.moveOneWay k p).Frame s') (he : s'.rpc = r.1) :
    s.Move (.takeOneWay k fresh) s' := by
  have hrpc : s.Frame { s with rpc := r.1 } := ⟨rfl, rfl, rfl, rfl, fun _ => ⟨rfl, id⟩⟩
  refine .choose (c := r.2) ((hrpc.trans (.moveOneWay _ k p hp)).trans hf) (fun hnil => ?_) ?_
  · rw [State.choose_eq_none_iff.2 hnil] at hr
    cases hr
  · rw [he]
    exact (State.choose_spec hr).1

theorem step_move {a : NetAction} (hs : s.step a = some s') : s.Move a s' := by
  have hrpc : ∀ {rpc : State}, s.Frame { s with rpc } := ⟨rfl, rfl, rfl, rfl, fun _ => ⟨rfl, id⟩⟩
  cases step_step hs with
  | rpc _ hclear hcall _ hs =>
    obtain ⟨hf, hb⟩ := Frame.rpcStep hs
    exact .rpc hb hf hclear hcall
  | takeConnectionTask hb | drainDone _ _ hb => exact .rpc hb hrpc nofun nofun
  | clear _ hb => exact .rpc hb ⟨rfl, rfl, rfl, rfl, fun _ => ⟨rfl, id⟩⟩ nofun nofun
  | @refuse c _ _ _ _ _ hb => exact .rpc hb (hrpc.trans (.refuse _ c)) nofun nofun
  | establish _ _ hb ht hs =>
    obtain ⟨hft, het⟩ := Frame.ioStep ht
    obtain ⟨hfs, hes⟩ := Frame.ioStep hs
    refine .rpc ?_ ((hrpc.trans hft).trans hfs) nofun nofun
    rw [hes, het]
    exact hb
  | onClose hb hs =>
    obtain ⟨hf, he⟩ := Frame.ioStep hs
    exact .rpc (by rw [he]; exact hb) (hrpc.trans hf) nofun nofun
  | clearChannel hq hb => exact .clear hq hb
  | crash ha hnil => exact .crash ha hnil
  | oneWayCall hr => exact .make hr
  | @wait _ _ r _ _ hr => exact .ofChoice (p := .waitSend r.2) hr nofun (.refl _) rfl
  | @send _ _ r _ _ _ hr _ hs =>
    obtain ⟨hf, he⟩ := Frame.ioStep hs
    exact .ofChoice (p := .sent r.2) hr nofun hf he
  | @drain k c _ _ _ _ hs =>
    obtain ⟨hf, he⟩ := Frame.ioStep hs
    exact .quiet rfl ((Frame.moveOneWay s k (.sent c) nofun).trans hf) he
  | release ch => exact .release ch
  | io _ hs =>
    obtain ⟨hf, he⟩ := Frame.ioStep hs
    exact .quiet rfl hf he

/-- **Taking a task ends the process exactly if its channel was cleared.** -/
theorem crashed_iff {a : NetAction} (hs : s.step a = some s') : s'.crashed = true ↔
    ∃ ch, s.dequeues a = some ch ∧ (s.rpc.channels ch).connections = [] := by
  have hrun : s.crashed = false := by
    unfold step at hs
    split_ifs at hs with hc
    exact Bool.eq_false_iff.2 hc
  -- the process goes on, and the channel of a task that is taken has connections
  have hgoes : s'.crashed = s.crashed →
      (∀ ch, s.dequeues a = some ch → (s.rpc.channels ch).connections ≠ []) →
      (s'.crashed = true ↔
        ∃ ch, s.dequeues a = some ch ∧ (s.rpc.channels ch).connections = []) := by
    intro hc hne
    rw [hc, hrun]
    refine iff_of_false nofun ?_
    rintro ⟨ch, hch, hnil⟩
    exact hne ch hch hnil
  cases step_move hs with
  | crash ha hnil => exact iff_of_true rfl ⟨_, ha, hnil⟩
  | rpc hb hf =>
    refine hgoes hf.crashed fun ch hch => ?_
    unfold dequeues at hch
    split at hch
    · rename_i heq
      cases heq
      split_ifs at hch
      exact State.connections_of_takeTask hb hch
    · rename_i heq
      cases heq
    · cases hch
  | clear | make | release => exact hgoes rfl nofun
  | choose hf hne =>
    refine hgoes hf.crashed fun ch hch => ?_
    obtain ⟨-, rfl⟩ := ite_some_none_eq_some.1 hch
    exact hne
  | quiet ha hf =>
    refine hgoes hf.crashed fun ch hch => ?_
    rw [ha] at hch
    cases hch

/-- Some task of the channel is in `taskQueue_`. -/
def queued (s : Net) (channel : ℕ) : Bool :=
  (s.rpc.anyCall fun t => t.place = .taskQueue && t.channel = some channel) ||
    (List.range s.nextOneWay).any fun k => s.oneWays k = ⟨channel, .taskQueue⟩

/-- `clearChannelRoutine` clears a channel when no task of it is queued. -/
def clearsInTime (s : Net) : NetAction → Bool
  | .rpc (.client (.clearChannel channel)) => !s.queued channel
  | _ => true

structure InTime (s : Net) : Prop where
  crashed : s.crashed = false
  kinds : s.rpc.Kinds
  /-- a channel is cleared after it was released -/
  released : ∀ ch, ch ∈ s.clearQueue ∨ (s.rpc.channels ch).connections = [] → s.released ch = true
  calls : ∀ k ch, (s.rpc.tasks k).place = .taskQueue → (s.rpc.tasks k).channel = some ch →
    (s.rpc.channels ch).connections ≠ []
  oneWays : ∀ k, k < s.nextOneWay → (s.oneWays k).place = .taskQueue →
    (s.rpc.channels (s.oneWays k).channel).connections ≠ []

namespace InTime

theorem ofFrame (h : s.InTime) (hf : s.Frame s') (hkinds : s'.rpc.Kinds)
    (hch : ∀ ch, (s'.rpc.channels ch).connections = [] → (s.rpc.channels ch).connections = [])
    (hcalls : ∀ k ch, (s'.rpc.tasks k).place = .taskQueue →
      (s'.rpc.tasks k).channel = some ch → (s.rpc.tasks k).place = .taskQueue ∧
        (s.rpc.tasks k).channel = some ch ∨ s.released ch = false) : s'.InTime where
  crashed := hf.crashed.trans h.crashed
  kinds := hkinds
  released ch hc := by
    rw [hf.released]
    rw [hf.clearQueue] at hc
    exact h.released ch (hc.imp_right (hch ch))
  calls k ch hp hc hnil := by
    rcases hcalls k ch hp hc with ⟨hp', hc'⟩ | hr
    · exact h.calls k ch hp' hc' (hch ch hnil)
    · rw [h.released ch (.inr (hch ch hnil))] at hr
      cases hr
  oneWays k hk hp hnil := by
    obtain ⟨hchan, hplace⟩ := hf.oneWays k
    rw [hf.nextOneWay] at hk
    rw [hchan] at hnil
    exact h.oneWays k hk (hplace hp) (hch _ hnil)

theorem clear (h : s.InTime) {ch : ℕ} {rest : List ℕ} {rpc : State}
    (hq : s.clearQueue = ch :: rest) (hs : s.rpc.step (.client (.clearChannel ch)) = some rpc)
    (hno : s.queued ch = false) : { s with rpc, clearQueue := rest }.InTime := by
  have hkinds := h.kinds.step hs
  obtain ⟨hcalls, honeWays⟩ := Bool.or_eq_false_iff.1 hno
  rw [State.anyCall_eq_false] at hcalls
  obtain ⟨-, hs⟩ := ite_none_left_eq_some.1 hs
  cases hs
  have hother : ∀ {c : ℕ}, c ≠ ch → (update s.rpc.channels ch
      { s.rpc.channels ch with connections := [] } c).connections =
      (s.rpc.channels c).connections := by
    intro c hc
    rw [update_of_ne hc]
  refine ⟨h.crashed, hkinds, fun c hc => ?_, fun k c hp hc => ?_, fun k hk hp => ?_⟩
  · by_cases hcc : c = ch
    · rw [hcc]
      exact h.released ch (.inl (by simp [hq]))
    · refine h.released c (hc.imp (fun hmem => ?_) (hother hcc).symm.trans)
      rw [hq]
      exact mem_cons_of_mem ch hmem
  · have hcc : c ≠ ch := by
      rintro rfl
      replace hp : (s.rpc.tasks k).place = _ := hp
      replace hc : (s.rpc.tasks k).channel = _ := hc
      have := hcalls k (h.kinds.lt_next (by simp [hp]))
      simp [hp, hc] at this
    exact (hother hcc).symm ▸ h.calls k c hp hc
  · have hcc : (s.oneWays k).channel ≠ ch := by
      intro hcc
      have := any_eq_false.1 honeWays k (mem_range.2 hk)
      apply this
      rw [decide_eq_true_iff, ← hcc, ← show (s.oneWays k).place = _ from hp]
    exact (hother hcc).symm ▸ h.oneWays k hk hp

theorem step (h : s.InTime) {a : NetAction} (hok : s.clearsInTime a = true)
    (hs : s.step a = some s') : s'.InTime := by
  cases step_move hs with
  | rpc hb hf hclear hcall =>
    refine h.ofFrame hf (h.kinds.step hb) (fun ch hnil => ?_) fun k ch hp hc => ?_
    · rw [← length_eq_zero_iff] at hnil ⊢
      rw [← State.length_of_step hb (hclear ch), hnil]
    · refine (State.taskQueue_of_step hb hp hc).imp_right ?_
      rintro ⟨co, timeout, rfl⟩
      exact hcall co ch timeout rfl
  | clear hq hb => exact h.clear hq hb (Bool.not_eq_true' _ ▸ hok)
  | crash ha hnil =>
    exfalso
    unfold dequeues at ha
    split at ha
    · split_ifs at ha with hp
      exact h.calls _ _ hp ha hnil
    · split_ifs at ha with hk
      cases ha
      exact h.oneWays _ hk.1 hk.2 hnil
    · cases ha
  | choose hf hne hr =>
    obtain ⟨henv, htasks⟩ := State.getNextConnection_frame hr
    refine h.ofFrame hf (h.kinds.of_eq henv htasks) (fun ch hnil => ?_) fun k ch hp hc => ?_
    · rw [← length_eq_zero_iff] at hnil ⊢
      rw [← State.length_getNextConnection hr ch, hnil]
    · dsimp only at htasks
      rw [htasks] at hp hc
      exact .inl ⟨hp, hc⟩
  | quiet ha hf he =>
    refine h.ofFrame hf (he ▸ h.kinds) (fun ch => ?_) fun k ch hp hc => ?_
    · rw [he]
      exact id
    · rw [he] at hp hc
      exact .inl ⟨hp, hc⟩
  | @make channel hr =>
    refine ⟨h.crashed, h.kinds, h.released, h.calls, fun k hk hp => ?_⟩
    simp only [update_apply] at hp ⊢
    split_ifs at hp ⊢ with hn
    · intro hnil
      rw [h.released channel (.inr hnil)] at hr
      cases hr
    · replace hk : k < s.nextOneWay + 1 := hk
      exact h.oneWays k (by omega) hp
  | release channel =>
    refine ⟨h.crashed, h.kinds, fun ch hc => ?_, h.calls, h.oneWays⟩
    simp only [update_apply]
    split_ifs with hn
    · rfl
    · refine h.released ch (hc.imp_left fun hmem => ?_)
      exact (mem_append.1 hmem).resolve_right fun hm => hn (mem_singleton.1 hm)

end InTime

theorem inTime_init {channels : ℕ → ℕ} (hpos : ∀ ch, 0 < channels ch) :
    (init channels).InTime where
  crashed := rfl
  kinds := kinds_init channels
  released ch hc := by
    rcases hc with hmem | hnil
    · exact absurd hmem not_mem_nil
    · rw [← length_eq_zero_iff] at hnil
      have := hpos ch
      simp [init, State.init] at hnil
      omega
  calls _ _ := nofun
  oneWays _ hk := absurd hk (Nat.not_lt_zero _)

end Net

/-- **Calls on a released channel**: `taskHandleRoutine` ends the process exactly where it takes a
task whose channel was cleared. -/
theorem released_calls (connectNum : ℕ → ℕ) (actions : List NetAction) (s : Net) :
    (run (restrict Net.clearsInTime Net.step)
        (Net.init fun ch => ChannelCore.connectNum (connectNum ch)) actions = some s →
      s.crashed = false) ∧
    (run Net.step (Net.init fun ch => ChannelCore.connectNum (connectNum ch)) actions = some s →
      ∀ a s', s.step a = some s' → (s'.crashed = true ↔
        ∃ ch, s.dequeues a = some ch ∧ (s.rpc.channels ch).connections = [])) := by
  refine ⟨fun h => ?_, fun _ a s' hs => Net.crashed_iff hs⟩
  have hinit := Net.inTime_init fun ch => ChannelCore.connectNum_pos (connectNum ch)
  exact (run_restrict_invariant (fun _ _ _ h hok hs => h.step hok hs) hinit h).crashed

/-- Two calls are made on a channel and their tasks are taken; the channel is released and
cleared. -/
def clearedInTime : List NetAction :=
  [.rpc (.env (.startCoroutine 0 0)), .rpc (.env (.callMethod 0 0 0)), .oneWayCall 0,
    .rpc (.client (.takeTask 0 0 false)), .takeOneWay 0 1, .release 0,
    .rpc (.client (.clearChannel 0))]

theorem released_calls_inTime : ∃ s, run (restrict Net.clearsInTime Net.step)
      (Net.init fun _ => ChannelCore.connectNum 0) clearedInTime = some s ∧
    (s.rpc.channels 0).connections = [] ∧ s.crashed = false := by
  exact exists_run_and (by decide +kernel) fun s hs _ => (released_calls (fun _ => 0) _ s).1 hs

/-- Two calls are made on a channel, which is released and cleared before
`taskHandleRoutine` takes their tasks. -/
def clearedTooEarly : List NetAction :=
  [.rpc (.env (.startCoroutine 0 0)), .rpc (.env (.callMethod 0 0 0)), .oneWayCall 0, .release 0,
    .rpc (.client (.clearChannel 0))]

/-- **A task of a cleared channel ends the process**: the caller of the first call is not
resumed, and the closure of the second one is not run. -/
theorem task_of_cleared_channel_crashes :
    (∃ s, run Net.step (Net.init fun _ => 1)
        (clearedTooEarly ++ [.rpc (.client (.takeTask 0 0 false))]) = some s ∧
      s.crashed = true ∧ (s.rpc.tasks 0).place = .taskQueue) ∧
    ∃ s, run Net.step (Net.init fun _ => 1) (clearedTooEarly ++ [.takeOneWay 0 0]) = some s ∧
      s.crashed = true ∧ s.dones 0 = 0 := by
  constructor
  · exact exists_run_of_decide (by decide +kernel)
  · exact exists_run_of_decide (by decide +kernel)

end Corpc.Rpc
