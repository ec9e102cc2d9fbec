/-
# No call is left behind

Once `taskHandleRoutine` has taken the task of a call without time-out, the task should be in the
waiting list of a connection whose `CONNECT` task is pending, or in `waitResultCoMap_` of one whose
`CLOSE` task was not processed: whoever handles that task, or the response, resumes the caller.
-/

import Corpc.Rpc.Connections

namespace Corpc.Rpc

open Corpc.Basis Function

/-- The `CONNECT` task of the connection is pending or in progress. -/
def State.connectPending (s : State) (c : ℕ) : Prop :=
  .connect c ∈ s.connectionTasks ∨ s.connection = .connecting c ∨ s.connection.drains c = true

/-- What happens to the call is settled: it was resumed, it waits for a connection that
is being made, or for the response on a connection that was not cleared. -/
def State.accounted (s : State) (k : ℕ) : Prop :=
  (s.tasks k).place = .resumed ∨ (∃ err w, (s.tasks k).place = .waitResume err w) ∨
  (∃ c, (s.tasks k).place = .waitSend c ∧ s.connectPending c) ∨
  ∃ c, (s.tasks k).place = .waitResult c ∧ (s.conns c).cleared = false

def Place.inHands : Place → Bool
  | .taskHandle _ | .draining _ => true
  | _ => false

/-- No call without time-out that left `taskQueue_` is stranded, and no entry is left in
`waitResultCoMap_` of a connection whose `CLOSE` task was processed. -/
def State.NoneStranded (s : State) : Prop :=
  (∀ k, k < s.next → (s.tasks k).timed = false → (s.tasks k).channel ≠ none →
    (s.tasks k).place ≠ .taskQueue → (s.tasks k).place.inHands = false → s.accounted k) ∧
  ∀ k c, (s.tasks k).place = .waitResult c → (s.conns c).cleared = false

/-- `waitResultCoMap_` of the connection has an entry of a call without time-out of the
same coroutine. -/
def State.replacesUntimed (s : State) (k c : ℕ) : Bool :=
  s.anyCall fun t => t.place = .waitResult c && t.co = (s.tasks k).co && !t.timed

/-- The `CLOSE` task of a connection is not processed while `taskHandleRoutine` waits for
the mutex of the connection, and no task is put in the place of a call without
time-out. -/
def keepsCalls (s : State) : Action → Bool
  | .client .clearConnection =>
    match s.connection with
    | .closing c => !s.anyCall fun t => t.place = .taskHandle c
    | _ => true
  | .client (.takeTask k c _) =>
    match (s.tasks k).channel.bind fun channel => s.getNextConnection channel c with
    | some r => !s.replacesUntimed k r.2
    | none => true
  | .client .lockTask =>
    match s.taskHandle with
    | .lock k =>
      match (s.tasks k).place with
      | .taskHandle c => !s.replacesUntimed k c
      | _ => true
    | .idle => true
  | .client (.drainTask k _) =>
    match s.connection with
    | .drain c => !s.replacesUntimed k c
    | _ => true
  | .client .drainLocked =>
    match s.connection with
    | .drainLock k c => !s.replacesUntimed k c
    | _ => true
  | _ => true

structure Placed (s : Client) (k : ℕ) (t : RpcClientTask) : Prop where
  waitSend : ∀ c, t.place = .waitSend c →
    (s.conns c).st = .connecting ∨ s.connection.drains c = true
  draining : ∀ c, t.place = .draining c → s.connection = .drainLock k c
  kept : ∀ c, t.place = .taskHandle c ∨ t.place = .waitResult c → (s.conns c).cleared = false
  notDropped : t.timed = false → t.channel ≠ none → t.place ≠ .dropped

def Place.untied : Place → Bool
  | .waitSend _ | .draining _ | .taskHandle _ | .waitResult _ | .dropped => false
  | _ => true

namespace Placed

variable {s s' : Client} {k : ℕ} {t t' : RpcClientTask}

theorem of_untied (h : t.place.untied = true) : Placed s k t := by
  refine ⟨fun c hc => ?_, fun c hc => ?_, fun c hc => ?_, fun _ _ hc => ?_⟩
  · rw [hc] at h
    cases h
  · rw [hc] at h
    cases h
  · rcases hc with hc | hc <;> rw [hc] at h <;> cases h
  · rw [hc] at h
    cases h

theorem mono (h : Placed s k t) (hst : ∀ c, t.place = .waitSend c →
      (s.conns c).st = .connecting ∨ s.connection.drains c = true →
        (s'.conns c).st = .connecting ∨ s'.connection.drains c = true)
    (hpc : ∀ c, t.place = .draining c → s.connection = .drainLock k c →
      s'.connection = .drainLock k c) (hc : ∀ c, t.place = .taskHandle c ∨ t.place = .waitResult c →
      (s.conns c).cleared = false → (s'.conns c).cleared = false) : Placed s' k t where
  waitSend c hp := hst c hp (h.waitSend c hp)
  draining c hp := hpc c hp (h.draining c hp)
  kept c hp := hc c hp (h.kept c hp)
  notDropped := h.notDropped

theorem congr (h : Placed s k t) (hp : t'.place = t.place) (hc : t'.channel = t.channel)
    (ht : t'.timed = t.timed) : Placed s k t' where
  waitSend c hk := h.waitSend c (hp ▸ hk)
  draining c hk := h.draining c (hp ▸ hk)
  kept c hk := h.kept c (hp ▸ hk)
  notDropped hu hr := by
    rw [hp]
    exact h.notDropped (ht ▸ hu) (hc ▸ hr)

end Placed

structure State.Held (s : State) : Prop where
  sound : s.toClient.Sound
  kinds : s.Kinds
  placed : ∀ k, Placed s.toClient k (s.tasks k)

theorem State.Held.noneStranded {s : State} (h : s.Held) : s.NoneStranded := by
  refine ⟨fun k _ huntimed hremote hqueue hhands => ?_, fun k c hk => (h.placed k).kept c (.inr hk)⟩
  have hp := h.placed k
  have hinner := h.kinds.inner k
  unfold State.accounted
  cases hplace : (s.tasks k).place with
  | pushing | requestQueue | serving => exact absurd (hinner (by rw [hplace]; rfl)) hremote
  | taskQueue => exact absurd hplace hqueue
  | taskHandle c | draining c => rw [hplace] at hhands; cases hhands
  | dropped => exact absurd hplace (hp.notDropped huntimed hremote)
  | resumed => exact .inl rfl
  | waitResume err w => exact .inr (.inl ⟨err, w, rfl⟩)
  | waitResult c => exact .inr (.inr (.inr ⟨c, rfl, hp.kept c (.inr hplace)⟩))
  | waitSend c =>
    refine .inr (.inr (.inl ⟨c, rfl, ?_⟩))
    rcases hp.waitSend c hplace with hst | hdrain
    · rcases h.sound.connectPending hst with hc | hc
      · exact .inl hc
      · exact .inr (.inl hc)
    · exact .inr (.inr hdrain)

theorem held_init (channels : ℕ → ℕ) : (State.init channels).Held where
  sound := sound_init channels
  kinds := kinds_init channels
  placed _ := .of_untied rfl

namespace State.Held

variable {s s' : State} {k c : ℕ}

theorem env (h : s.Held) {a : EnvAction} (hs : s.envStep a = some s') : s'.Held := by
  have hf := envStep_frame hs
  refine ⟨hf.client ▸ h.sound, h.kinds.env hf, fun k => ?_⟩
  rw [hf.client]
  have hmove := hf.tasks k
  generalize s'.tasks k = t at hmove ⊢
  cases hmove with
  | stay c _ => exact (h.placed k).congr rfl rfl rfl
  | resume c _ _ | push _ => exact .of_untied rfl
  | make _ _ _ hp =>
    split_ifs at hp
    · rcases hp with hp | hp <;> exact .of_untied (by rw [hp]; rfl)
    · exact .of_untied (by rw [hp]; rfl)

theorem of_placed (h : s.Held) {a : ClientAction} (hs : s.clientStep a = some s')
    (hp : ∀ k, Placed s'.toClient k (s'.tasks k)) : s'.Held :=
  ⟨sound_step h.sound (a := .client a) hs, h.kinds.client (clientStep_frame hs), hp⟩

theorem placed_submit (h : s.Held) (hc : (s.conns c).cleared = false)
    (hr : s.replacesUntimed k c = false) (j : ℕ) :
    Placed s.toClient j ((s.submit k c).tasks j) := by
  simp only [submit]
  split_ifs with hj hrep
  · refine ⟨by rintro _ ⟨⟩, by rintro _ ⟨⟩, fun d hd => ?_, by rintro _ _ ⟨⟩⟩
    rcases hd with hd | hd <;> cases hd
    exact hc
  · -- the entry that is replaced belongs to a call with a time-out
    refine ⟨by rintro _ ⟨⟩, by rintro _ ⟨⟩,
      fun d hd => (by rcases hd with hd | hd <;> cases hd), fun hu _ => ?_⟩
    have hlt : j < s.next := h.kinds.lt_next (by rw [hrep.1]; rintro ⟨⟩)
    have := (s.anyCall_eq_false).1 hr j hlt
    simp [hrep.1, hrep.2, show (s.tasks j).timed = false from hu] at this
  · exact h.placed j

theorem placed_failAll {cl : Client} {p : Place} {err : ℕ}
    (hp : ∀ j, (s.tasks j).place ≠ p → Placed cl j (s.tasks j)) (j : ℕ) :
    Placed cl j ((s.failAll p err).tasks j) := by
  simp only [failAll]
  split_ifs with hj
  · exact .of_untied rfl
  · exact hp j hj

theorem notCleared (h : s.toClient.Sound) (hc : (s.conns c).st ≠ .closed) :
    (s.conns c).cleared = false :=
  Bool.eq_false_iff.2 fun hcl => hc (h.cleared c hcl)

theorem flags_update {conns : ℕ → Connection} {d' : Connection}
    (hd' : d'.st = (conns c).st ∧ d'.cleared = (conns c).cleared) (d : ℕ) :
    (update conns c d' d).st = (conns d).st ∧
      (update conns c d' d).cleared = (conns d).cleared := by
  rw [update_apply]
  split_ifs with hd
  · exact hd ▸ hd'
  · exact ⟨rfl, rfl⟩

theorem cleared_update {conns : ℕ → Connection} {d' : Connection}
    (hd' : d'.cleared = (conns c).cleared) (d : ℕ) (h : (conns d).cleared = false) :
    (update conns c d' d).cleared = false := by
  rw [update_apply]
  split_ifs with hd
  · rw [hd', ← hd, h]
  · exact h

theorem placed_of_flags (h : s.Held) {cl : Client} (hpc : cl.connection = s.connection)
    (hc : ∀ c, (cl.conns c).st = (s.conns c).st ∧ (cl.conns c).cleared = (s.conns c).cleared)
    (j : ℕ) : Placed cl j (s.tasks j) := by
  refine (h.placed j).mono (fun d _ hd => ?_) (fun d _ hd => ?_) fun d _ hd => ?_
  · rw [hpc, (hc d).1]
    exact hd
  · rw [hpc]
    exact hd
  · rw [(hc d).2]
    exact hd

theorem getNextConnection (h : s.Held) {channel : ℕ} {r : State × ℕ}
    (hr : s.getNextConnection channel c = some r) : r.1.Held := by
  have hsound := h.sound.getNextConnection hr
  rcases getNextConnection_spec hr with ⟨chs, he, -⟩ | ⟨chs, hc, -, he⟩
  · rw [he] at hsound ⊢
    exact ⟨hsound, ⟨h.kinds.fresh, h.kinds.inner, h.kinds.parked⟩,
      h.placed_of_flags rfl fun _ => ⟨rfl, rfl⟩⟩
  · rw [he] at hsound ⊢
    refine ⟨hsound, ⟨h.kinds.fresh, h.kinds.inner, h.kinds.parked⟩, fun k =>
      (h.placed k).mono (fun d _ hd => ?_) (fun _ _ h => h) fun d _ => cleared_update (by rfl) d⟩
    refine hd.imp_left fun hst => ?_
    simp only [modifyConn, update_apply]
    split_ifs
    · rfl
    · exact hst

theorem replacesUntimed_congr {s₁ : State} (hn : s₁.next = s.next) (ht : s₁.tasks = s.tasks) :
    s₁.replacesUntimed k c = s.replacesUntimed k c := by
  unfold replacesUntimed anyCall
  rw [hn, ht]

section

variable (h : s.Held)
include h

theorem placed_drop (hlate : s.mayDrop k = true) (j : ℕ) :
    Placed s.toClient j ((s.move k .dropped).tasks j) := by
  refine forall_modify ⟨nofun, nofun, fun d hd => ?_, fun hu _ => ?_⟩ h.placed j
  · rcases hd with hd | hd <;> cases hd
  · rw [mayDrop, Bool.and_eq_true] at hlate
    exact absurd hlate.1 (Bool.eq_false_iff.1 hu)

theorem placed_handle (hr : s.replacesUntimed k c = false)
    (hs : HandleStep s k c s') (j : ℕ) : Placed s'.toClient j (s'.tasks j) := by
  cases hs with
  | queue hst =>
    refine forall_modify ⟨fun d hd => ?_, nofun, fun d hd => ?_, nofun⟩ h.placed j
    · cases hd
      exact .inl hst
    · rcases hd with hd | hd <;> cases hd
  | drop _ hlate => exact h.placed_drop hlate j
  | wait hst =>
    have hp : ∀ j, Placed s.toClient j ((s.move k (.taskHandle c)).tasks j) := by
      refine forall_modify ⟨nofun, nofun, fun d hd => ?_, nofun⟩ h.placed
      rcases hd with hd | hd <;> cases hd
      exact notCleared h.sound (by rw [hst]; nofun)
    exact (hp j).mono (fun _ _ h => h) (fun _ _ h => h) fun _ _ h => h
  | submit hst => exact h.placed_submit (notCleared h.sound (by rw [hst]; nofun)) hr j

theorem place_ne {p : Place} (hp : p ≠ .resumed)
    (hany : ¬(s.anyCall fun t => t.place = p) = true) (k : ℕ) : (s.tasks k).place ≠ p := by
  intro hk
  have hlt : k < s.next := h.kinds.lt_next (hk ▸ hp)
  have := (s.anyCall_eq_false).1 (Bool.eq_false_iff.2 hany) k hlt
  exact absurd hk (of_decide_eq_false this)

theorem takeClose (hpc : s.connection = .idle) {rest : List ConnectionTask}
    (hnone : ¬(s.anyCall fun t => t.place = .waitSend c) = true) (j : ℕ) :
    Placed { s.modifyConn c (fun d => { d with st := .closed }) with
      connectionTasks := rest, connection := .closing c }.toClient j (s.tasks j) := by
  refine (h.placed j).mono (fun d hd hst => ?_) (fun d _ hd => ?_) fun d _ =>
    cleared_update (by rfl) d
  · rw [hpc] at hst
    simp only [modifyConn, update_apply]
    split_ifs with hdc
    · exact absurd (hdc ▸ hd) (h.place_ne (by rintro ⟨⟩) hnone j)
    · exact hst.imp_right fun he => by cases he
  · rw [hpc] at hd
    cases hd

theorem clear (hpc : s.connection = .closing c)
    (hnone : ¬(s.anyCall fun t => t.place = .taskHandle c) = true) (j : ℕ) :
    Placed { s.modifyConn c (fun d => { d with cleared := true }) with
      connection := .idle }.toClient j ((s.failAll (.waitResult c) enetdown).tasks j) := by
  refine placed_failAll (fun j hj => ?_) j
  refine (h.placed j).mono (fun d hd hst => ?_) (fun d _ hd => ?_) fun d hd hcl => ?_
  · rw [hpc] at hst
    refine .inl ((hst.resolve_right (by rintro ⟨⟩)).symm ▸ ?_)
    simp only [modifyConn, update_apply]
    split_ifs with hdc
    · rw [hdc]
    · rfl
  · rw [hpc] at hd
    cases hd
  · simp only [modifyConn, update_apply]
    split_ifs with hdc
    · subst hdc
      rcases hd with hd | hd
      · exact absurd hd (h.place_ne (by rintro ⟨⟩) hnone j)
      · exact absurd hd hj
    · exact hcl

theorem refuse (hpc : s.connection = .connecting c) {err : ℕ} (j : ℕ) :
    Placed { s.modifyConn c (fun d => { d with st := .closed }) with
      connection := .idle }.toClient j ((s.failAll (.waitSend c) err).tasks j) := by
  refine placed_failAll (fun j hj => ?_) j
  refine (h.placed j).mono (fun d hd hst => ?_) (fun d _ hd => ?_) fun d _ =>
    cleared_update (by rfl) d
  · rw [hpc] at hst
    have hdc : d ≠ c := fun hdc => hj (hdc ▸ hd)
    simp only [modifyConn, update_of_ne hdc]
    exact .inl (hst.resolve_right (by rintro ⟨⟩))
  · rw [hpc] at hd
    cases hd

theorem establish (hpc : s.connection = .connecting c) (j : ℕ) :
    Placed { s.modifyConn c (fun d => { d with st := .connected, added := true }) with
      connection := .drain c }.toClient j (s.tasks j) := by
  refine (h.placed j).mono (fun d hd hst => ?_) (fun d _ hd => ?_) fun d _ =>
    cleared_update (by rfl) d
  · rw [hpc] at hst
    by_cases hdc : d = c
    · exact .inr (decide_eq_true hdc.symm)
    · simp only [modifyConn, update_of_ne hdc]
      exact .inl (hst.resolve_right (by rintro ⟨⟩))
  · rw [hpc] at hd
    cases hd

theorem drains_notCleared (hc : s.connection.drains c = true) :
    (s.conns c).cleared = false :=
  notCleared h.sound (by rw [h.sound.draining c hc]; nofun)

theorem drainWait (hpc : s.connection = .drain c) :
    ∀ j, Placed { s.toClient with connection := .drainLock k c } j
      ((s.move k (.draining c)).tasks j) := by
  refine forall_modify ⟨nofun, fun d hd => ?_, fun d hd => ?_, nofun⟩ fun j => ?_
  · cases hd
    rfl
  · rcases hd with hd | hd <;> cases hd
  · refine (h.placed j).mono (fun d _ hd => ?_) (fun d _ hd => ?_) fun _ _ h => h
    · rw [hpc] at hd
      exact hd
    · rw [hpc] at hd
      cases hd

theorem drainLocked (hpc : s.connection = .drainLock k c)
    (hr : s.replacesUntimed k c = false) (j : ℕ) :
    Placed { s.toClient with connection := .drain c } j ((s.submit k c).tasks j) := by
  have hcl := h.drains_notCleared (c := c) (by rw [hpc]; exact decide_eq_true rfl)
  refine (h.placed_submit hcl hr j).mono (fun d _ hd => ?_) (fun d hp hd => ?_) fun _ _ h => h
  · rw [hpc] at hd
    exact hd
  · rw [hpc] at hd
    cases hd
    simp [submit] at hp

theorem drainDone (hpc : s.connection = .drain c)
    (hnone : ¬(s.anyCall fun t => t.place = .waitSend c) = true) (j : ℕ) :
    Placed { s.toClient with connection := .idle } j (s.tasks j) := by
  refine (h.placed j).mono (fun d hd hst => ?_) (fun d _ hd => ?_) fun _ _ h => h
  · rw [hpc] at hst
    rcases hst with hst | hst
    · exact .inl hst
    · cases of_decide_eq_true hst
      exact absurd hd (h.place_ne (by nofun) hnone j)
  · rw [hpc] at hd
    cases hd

theorem readFrame (j : ℕ) :
    Placed (s.readFrame k c).toClient j ((s.readFrame k c).tasks j) := by
  rw [tasks_readFrame]
  refine Placed.congr (h.placed_of_flags ?_ (fun d => ?_) j) rfl rfl rfl
  · rfl
  · refine flags_update ?_ d
    exact ⟨rfl, rfl⟩

end

end State.Held

theorem held_step {s s' : State} {a : Action} (h : s.Held) (hok : keepsCalls s a = true)
    (hs : s.step a = some s') : s'.Held := by
  cases a with
  | env a => exact h.env hs
  | client a =>
    refine h.of_placed hs ?_
    cases clientStep_step hs with
    | @takeTask k _ _ _ r _ _ hch hr hs =>
      have hrep : s.replacesUntimed k r.2 = false := by
        simpa [keepsCalls, hch, hr] using hok
      obtain ⟨henv, htasks⟩ := State.getNextConnection_frame hr
      refine (h.getNextConnection hr).placed_handle ?_ hs
      exact (State.Held.replacesUntimed_congr (congrArg Environment.next henv) htasks).trans hrep
    | @lockTask k c hpc hk =>
      have hrep : s.replacesUntimed k c = false := by
        simpa [keepsCalls, hpc, hk] using hok
      intro j
      exact (h.placed_submit ((h.placed k).kept c (.inl hk)) hrep j).mono (fun _ _ h => h)
        (fun _ _ h => h) fun _ _ h => h
    | takeClose hpc _ hnone => exact h.takeClose hpc hnone
    | takeConnect hpc =>
      refine fun j => (h.placed j).mono (fun d _ hst => ?_) (fun d _ hd => ?_) fun _ _ h => h
      · rw [hpc] at hst
        exact hst.imp_right fun he => nomatch he
      · rw [hpc] at hd
        cases hd
    | @clear c hpc =>
      have hnone : ¬(s.anyCall fun t => t.place = .taskHandle c) = true := by
        simpa [keepsCalls, hpc] using hok
      exact h.clear hpc hnone
    | refuse hpc => exact h.refuse hpc
    | establish hpc => exact h.establish hpc
    | drainDrop _ _ hlate => exact h.placed_drop hlate
    | drainWait hpc => exact h.drainWait hpc
    | @drainSubmit k c _ hpc =>
      have hrep : s.replacesUntimed k c = false := by
        simpa [keepsCalls, hpc] using hok
      exact h.placed_submit (h.drains_notCleared (by rw [hpc]; exact decide_eq_true rfl)) hrep
    | @drainLocked k c hpc =>
      have hrep : s.replacesUntimed k c = false := by
        simpa [keepsCalls, hpc] using hok
      exact h.drainLocked hpc hrep
    | drainDone hpc hnone => exact h.drainDone hpc hnone
    | clearChannel => exact h.placed_of_flags rfl fun _ => ⟨rfl, rfl⟩
    | lockMap | onClose => exact h.placed_of_flags rfl (State.Held.flags_update ⟨rfl, rfl⟩)
    | miss => exact h.readFrame
    | complete _ _ _ _ _ ht =>
      exact State.forall_modify (.of_untied (by rw [(complete_spec ht).2.1]; rfl)) h.readFrame
    | @respond k => exact State.forall_modify ((h.placed k).congr rfl rfl rfl) h.placed
    | expire | accept => exact State.forall_modify (.of_untied rfl) h.placed
    | serve =>
      refine State.forall_modify (.of_untied ?_) h.placed
      split_ifs <;> rfl

/-- **No call is stranded in a run whose steps all keep the calls.** -/
theorem no_call_stranded (channels : ℕ → ℕ) (as : List Action) (s : State)
    (h : run (restrict keepsCalls State.step) (State.init channels) as = some s) :
    s.NoneStranded :=
  (run_restrict_invariant (fun _ _ _ hI hok hs => held_step hI hok hs) (held_init channels)
    h).noneStranded

/-- Coroutine 1 makes a call through a channel with one connection, which is made and on
which the request is sent. -/
def oneCallSent : List Action :=
  [.env (.startCoroutine 0 1), .env (.startCoroutine 0 2), .env (.callMethod 1 0 0),
    .client (.takeTask 0 7 false), .client .takeConnectionTask,
    .client (.connectDone .established), .client (.drainTask 0 false), .client .drainDone]

def secondCallWaits : List Action :=
  [.client (.respond 0 ⟨0, [], true⟩), .client (.lockMap 7), .env (.callMethod 2 0 0),
    .client (.takeTask 1 8 false), .client (.decode 0)]

/-- The connection is closed before `taskHandleRoutine` runs again. -/
def closeOvertakes : List Action :=
  [.client (.onClose 7), .client .takeConnectionTask, .client .clearConnection, .client .lockTask]

/-- **A call is stranded** where the `CLOSE` task overtakes the task that waits for the
mutex: it is put into `waitResultCoMap_` of a connection that was cleared. -/
theorem call_stranded : ∃ s, run State.step (State.init fun _ => 1)
    (oneCallSent ++ secondCallWaits ++ closeOvertakes) = some s ∧ ¬s.NoneStranded := by
  refine exists_run_of_imp (P := fun s => (s.tasks 1).place = .waitResult 7 ∧
    (s.conns 7).cleared = true) (by decide +kernel) fun s _ hp hn => ?_
  exact absurd hp.2 (Bool.eq_false_iff.1 (hn.2 1 7 hp.1))

/-- With the close after the task got the mutex nothing is stranded. -/
theorem no_call_stranded_closed_later :
    ((run (restrict keepsCalls State.step) (State.init fun _ => 1)
      (oneCallSent ++ secondCallWaits ++ [.client .lockTask, .client (.onClose 7),
        .client .takeConnectionTask, .client .clearConnection])).get
      (by decide +kernel)).NoneStranded :=
  no_call_stranded (fun _ => 1) _ _ (Option.some_get _).symm

end Corpc.Rpc
