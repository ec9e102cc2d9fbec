/-
# What one action does to a call

The task of a call goes from container to container.
-/

import Corpc.Rpc.Steps

namespace Corpc.Rpc

open Function State Environment

/-- What an action of the routine environment may make of the task of a call; `n` is
the number of the next call afterwards. -/
inductive EnvMove (s : State) (n k : ℕ) : RpcClientTask → Prop where
  | stay (c : Controller ErrorText) (hc : (s.tasks k).controller.failed = true → c.failed = true) :
      EnvMove s n k { s.tasks k with controller := c }
  /-- `resumeRoutine` handles its message -/
  | resume (c : Controller ErrorText) {err : ℕ} {w : Wake}
      (h : (s.tasks k).place = .waitResume err w)
      (hc : (s.tasks k).controller.failed = true → c.failed = true) :
      EnvMove s n k { s.tasks k with controller := c, place := .resumed }
  /-- `queue_.push` gets the mutex -/
  | push {co : ℕ} (h : s.cos co = .parked k) :
      EnvMove s n k { s.tasks k with place := .requestQueue }
  | make {t : RpcClientTask} (h : k = s.next) (hn : s.next < n)
      (unsent : t.request = .unsent ∧ t.parsed = false)
      (place : if t.channel = none then t.place = .pushing ∨ t.place = .requestQueue
        else t.place = .taskQueue) : EnvMove s n k t

/-- A task on its way to `waitResultCoMap_` of a connection. -/
def Place.submittable (c : ℕ) : Place → Bool
  | .taskQueue => true
  | .waitSend d | .taskHandle d | .draining d => d = c
  | _ => false

/-- What an action of the client, a receiver or a server may make of the task of a
call. -/
inductive ClientMove (a : ClientAction) (s : State) (k : ℕ) : RpcClientTask → Prop where
  | stay : ClientMove a s k (s.tasks k)
  /-- `taskHandleRoutine` puts it into a waiting list -/
  | queue (c : ℕ) (h : (s.tasks k).place = .taskQueue) :
      ClientMove a s k { s.tasks k with place := .waitSend c }
  /-- `taskHandleRoutine` waits for a mutex -/
  | handle (c : ℕ) (h : (s.tasks k).place = .taskQueue) :
      ClientMove a s k { s.tasks k with place := .taskHandle c }
  /-- `connectionRoutine` waits for a mutex -/
  | drain {c : ℕ} (h : (s.tasks k).place = .waitSend c) :
      ClientMove a s k { s.tasks k with place := .draining c }
  | drop (h : (s.tasks k).place = .taskQueue ∨ ∃ c, (s.tasks k).place = .waitSend c)
      (late : s.mayDrop k = true) : ClientMove a s k { s.tasks k with place := .dropped }
  | submit (c : ℕ) (h : (s.tasks k).place.submittable c = true) :
      ClientMove a s k { s.tasks k with place := .waitResult c, request := .sent c }
  /-- another task of the coroutine replaces it in `waitResultCoMap_` -/
  | replace {c : ℕ} (h : (s.tasks k).place = .waitResult c) :
      ClientMove a s k { s.tasks k with place := .dropped }
  | refuse {c err : ℕ} (h : (s.tasks k).place = .waitSend c) (hc : s.connection = .connecting c)
      (hf : ∃ o, a = .connectDone o ∧ o.possible = true ∧ o.failure = some err) :
      ClientMove a s k ((s.tasks k).resumeFailed k err)
  | clear {c : ℕ} (h : (s.tasks k).place = .waitResult c) (hc : s.connection = .closing c) :
      ClientMove a s k ((s.tasks k).resumeFailed k enetdown)
  | answer {c : ℕ} (f : Frame) (h : (s.tasks k).request = .sent c) :
      ClientMove a s k { s.tasks k with request := .answered c f }
  /-- the frame that answers it is decoded, and no entry of `waitResultCoMap_` is for
  it -/
  | miss {c : ℕ} {f : Frame} (h : (s.tasks k).request = .answered c f) :
      ClientMove a s k { s.tasks k with request := .decoded }
  /-- the frame that answers call `j` is decoded, and its entry is the one for it -/
  | complete {j c : ℕ} {f : Frame} {t : RpcClientTask} (h : (s.tasks k).place = .waitResult c)
      (ha : a = .decode j) (hj : (s.tasks j).request = .answered c f)
      (hopen : (s.conns c).ended = false) (hco : (s.tasks k).co = (s.tasks j).co)
      (hexp : (s.tasks k).expireTime = (s.tasks j).expireTime)
      (ht : State.complete j f { s.tasks k with
        request := if k = j then .decoded else (s.tasks k).request } = some t) : ClientMove a s k t
  /-- `requestQueueRoutine` finds it expired -/
  | expire (h : (s.tasks k).place = .requestQueue) :
      ClientMove a s k { s.tasks k with place := .waitResume etimedout (.failure k) }
  /-- `requestQueueRoutine` hands it to the service -/
  | accept (h : (s.tasks k).place = .requestQueue) :
      ClientMove a s k { s.tasks k with place := .serving }
  | serve (c : Controller ErrorText) (c₁ : Option (Controller ErrorText))
      (h : (s.tasks k).place = .serving) :
      ClientMove a s k { s.tasks k with
        place := .waitResume 0 (.response k), controller := c, controller_1 := c₁ }

theorem complete_spec {j : ℕ} {f : Frame} {t t' : RpcClientTask}
    (h : State.complete j f t = some t') :
    (t'.pid = t.pid ∧ t'.co = t.co ∧ t'.channel = t.channel ∧ t'.expireTime = t.expireTime) ∧
      t'.place = .waitResume 0 (.response j) ∧ t'.request = t.request := by
  unfold complete at h
  dsimp only at h
  split_ifs at h <;> cases h <;> exact ⟨⟨rfl, rfl, rfl, rfl⟩, rfl, rfl⟩

section

variable {a : ClientAction} {s : State} {k : ℕ} {t : RpcClientTask} (h : ClientMove a s k t)
include h

theorem ClientMove.const :
    t.pid = (s.tasks k).pid ∧ t.co = (s.tasks k).co ∧ t.channel = (s.tasks k).channel ∧
      t.expireTime = (s.tasks k).expireTime := by
  cases h with
  | complete _ _ _ _ _ _ ht => exact (complete_spec ht).1
  | _ => exact ⟨rfl, rfl, rfl, rfl⟩

theorem ClientMove.timed :
    t.timed = (s.tasks k).timed := by
  unfold RpcClientTask.timed
  rw [h.const.2.2.2]

theorem ClientMove.place_iff {p : Place} (hp : p = .pushing ∨ p = .resumed) :
    t.place = p ↔ (s.tasks k).place = p := by
  cases h with
  | stay | answer | miss => exact Iff.rfl
  | complete hk _ _ _ _ _ ht => rcases hp with rfl | rfl <;> simp [(complete_spec ht).2.1, hk]
  | drop hk => rcases hk with hk | ⟨c, hk⟩ <;> rcases hp with rfl | rfl <;> simp [hk]
  | submit c hk =>
    have hne : (s.tasks k).place ≠ p := by
      intro he
      rw [he] at hk
      rcases hp with rfl | rfl <;> cases hk
    exact iff_of_false (by rcases hp with rfl | rfl <;> nofun) hne
  | refuse hk | clear hk | queue c hk | handle c hk | drain hk | replace hk | expire hk
  | accept hk | serve c c₁ hk =>
    rcases hp with rfl | rfl <;> simp [hk, RpcClientTask.resumeFailed]

theorem ClientMove.resumed : t.place = .resumed ↔ (s.tasks k).place = .resumed :=
  h.place_iff (.inr rfl)

end

structure ClientFrame (a : ClientAction) (s s' : State) : Prop where
  env : s'.toEnvironment = s.toEnvironment
  ended : ∀ c, (s.conns c).ended = true → (s'.conns c).ended = true
  tasks : ∀ k, ClientMove a s k (s'.tasks k)

structure EnvFrame (s s' : State) : Prop where
  client : s'.toClient = s.toClient
  next : s.next ≤ s'.next
  tasks : ∀ k, EnvMove s s'.next k (s'.tasks k)
  parked : ∀ co k, s'.cos co = .parked k → s.cos co = .parked k ∨
    k = s.next ∧ s.next < s'.next ∧ (s'.tasks k).channel = none

namespace State

variable {a : ClientAction} {s s' : State} {k : ℕ}

theorem tasks_modify (f : RpcClientTask → RpcClientTask) (j : ℕ) :
    (s.modify k f).tasks j = if j = k then f (s.tasks k) else s.tasks j := by
  simp only [modify, update_apply]

theorem tasks_move (p : Place) (j : ℕ) : (s.move k p).tasks j =
    { s.tasks j with place := if j = k then p else (s.tasks j).place } := by
  rw [move, tasks_modify]
  split_ifs with h
  · rw [h]
  · rfl

theorem forall_modify {P : ℕ → RpcClientTask → Prop} {f : RpcClientTask → RpcClientTask}
    (hk : P k (f (s.tasks k))) (hstay : ∀ j, P j (s.tasks j)) (j : ℕ) :
    P j ((s.modify k f).tasks j) := by
  rw [tasks_modify]
  split_ifs with h
  · exact h ▸ hk
  · exact hstay j

theorem ended_update {conns : ℕ → Connection} {c : ℕ} {d' : Connection}
    (hd' : (conns c).ended = true → d'.ended = true) (d : ℕ) (h : (conns d).ended = true) :
    (update conns c d' d).ended = true := by
  rw [update_apply]
  split_ifs with hd
  · exact hd' (hd ▸ h)
  · exact h

theorem submit_moves {c : ℕ} (h : (s.tasks k).place.submittable c = true) (j : ℕ) :
    ClientMove a s j ((s.submit k c).tasks j) := by
  simp only [submit]
  split_ifs with hj hr
  · subst hj
    exact .submit c h
  · exact .replace hr.1
  · exact .stay

theorem failAll_moves {p : Place} {err : ℕ}
    (h : ∀ j, (s.tasks j).place = p → ClientMove a s j ((s.tasks j).resumeFailed j err))
    (j : ℕ) : ClientMove a s j ((s.failAll p err).tasks j) := by
  simp only [failAll]
  split_ifs with hj
  · exact h j hj
  · exact .stay

theorem ended_of_getNextConnection {channel c : ℕ} {r : State × ℕ}
    (h : s.getNextConnection channel c = some r) (d : ℕ) (hd : (s.conns d).ended = true) :
    (r.1.conns d).ended = true := by
  rcases getNextConnection_spec h with ⟨chs, hr, -⟩ | ⟨chs, -, -, hr⟩
  · rw [hr]
    exact hd
  · rw [hr]
    refine ended_update ?_ d hd
    exact id

theorem getNextConnection_frame {channel c : ℕ} {r : State × ℕ}
    (h : s.getNextConnection channel c = some r) :
    r.1.toEnvironment = s.toEnvironment ∧ r.1.tasks = s.tasks := by
  rcases getNextConnection_spec h with ⟨chs, hr, -⟩ | ⟨chs, -, -, hr⟩ <;>
    (rw [hr]; exact ⟨rfl, rfl⟩)

theorem handleStep_frame {s₁ : State} {c : ℕ} (henv : s₁.toEnvironment = s.toEnvironment)
    (htasks : s₁.tasks = s.tasks) (hk : (s.tasks k).place = .taskQueue) (h : HandleStep s₁ k c s') :
    s'.toEnvironment = s.toEnvironment ∧ s'.conns = s₁.conns ∧
      ∀ j, ClientMove a s j (s'.tasks j) := by
  have hmove : ∀ p, ClientMove a s k { s.tasks k with place := p } →
      ∀ j, ClientMove a s j ((s₁.move k p).tasks j) := by
    intro p hp
    refine forall_modify ?_ fun j => ?_ <;> rw [htasks]
    · exact hp
    · exact .stay
  cases h with
  | queue => exact ⟨henv, rfl, hmove _ (.queue c hk)⟩
  | drop _ hlate =>
    have hnow : s₁.now = s.now := congrArg now henv
    simp only [mayDrop, htasks, hnow] at hlate
    exact ⟨henv, rfl, hmove _ (.drop (.inl hk) hlate)⟩
  | wait => exact ⟨henv, rfl, hmove _ (.handle c hk)⟩
  | submit =>
    refine ⟨henv, rfl, fun j => ?_⟩
    simp only [submit, htasks]
    exact submit_moves (by rw [hk]; rfl) j

theorem tasks_readFrame (j c i : ℕ) : (s.readFrame j c).tasks i =
    { s.tasks i with request := if i = j then .decoded else (s.tasks i).request } := by
  refine (tasks_modify (fun t => { t with request := .decoded }) i).trans ?_
  split_ifs with hi
  · rw [hi]
  · rfl

theorem readFrame_moves {j c : ℕ} {f : Frame} (hreq : (s.tasks j).request = .answered c f)
    (i : ℕ) : ClientMove a s i ((s.readFrame j c).tasks i) := by
  rw [tasks_readFrame]
  split_ifs with hi
  · subst hi
    exact .miss hreq
  · exact .stay

theorem settle_eq (err : ℕ) (t : RpcClientTask) :
    ∃ c : Controller ErrorText, settle err t = { t with controller := c } ∧
      (t.controller.failed = true → c.failed = true) := by
  unfold settle
  split_ifs
  · exact ⟨_, rfl, fun _ => rfl⟩
  · split
    · rename_i c _
      split_ifs with hc
      · exact ⟨_, rfl, fun _ => hc⟩
      · exact ⟨_, rfl, id⟩
    · exact ⟨_, rfl, id⟩

theorem issue_frame {co timeout : ℕ} {channel : Option ℕ} {place : Place} {st : ℕ → CoState}
    (hplace : if channel = none then place = .pushing ∨ place = .requestQueue
      else place = .taskQueue) (hst : ∀ k j, st k = .parked j → j = k ∧ channel = none) :
    EnvFrame s (s.issue co timeout channel place st) := by
  refine ⟨rfl, Nat.le_succ _, fun k => ?_, fun co' k hk => ?_⟩
  · simp only [issue, update_apply]
    split_ifs with hk
    · exact .make hk (Nat.lt_succ_self _) ⟨rfl, rfl⟩ hplace
    · exact .stay _ id
  · simp only [issue, update_apply] at hk ⊢
    split_ifs at hk
    · obtain ⟨rfl, hc⟩ := hst _ _ hk
      exact .inr ⟨rfl, Nat.lt_succ_self _, by rw [if_pos rfl]; exact hc⟩
    · exact .inl hk

theorem frame_of_tasks_eq (hc : s'.toClient = s.toClient) (hn : s'.next = s.next)
    (ht : s'.tasks = s.tasks)
    (hp : ∀ co k, s'.cos co = .parked k → s.cos co = .parked k) : EnvFrame s s' :=
  ⟨hc, hn.ge, fun k => by rw [ht]; exact .stay _ id, fun co k hk => .inl (hp co k hk)⟩

theorem parked_setCo {co : ℕ} {st : CoState} (hst : ∀ k, st ≠ .parked k) (co' k : ℕ)
    (h : (s.setCo co st).cos co' = .parked k) : s.cos co' = .parked k := by
  simp only [setCo, update_apply] at h
  split_ifs at h
  · exact absurd h (hst k)
  · exact h

theorem resumeCall_spec (h : s.resumeCall k = some s') :
    ∃ err w, (s.tasks k).place = .waitResume err w ∧
      (((s.tasks k).expireTime = 0 ∧ s' = (s.move k .resumed).activate (s.tasks k).co w) ∨
      ((s.tasks k).expireTime ≠ 0 ∧ ∃ n, s.getNode (s.tasks k).pid (s.tasks k).co = some n ∧
        (s.tasks n).expireTime = (s.tasks k).expireTime ∧
        s' = { (s.move k .resumed).modify n (settle err) with
          timeoutList := s.timeoutList.erase n }.activate (s.tasks k).co w) ∨
      ((s.tasks k).expireTime ≠ 0 ∧ s' = s.move k .resumed ∧
        ∀ n, s.getNode (s.tasks k).pid (s.tasks k).co = some n →
          (s.tasks n).expireTime ≠ (s.tasks k).expireTime)) := by
  unfold resumeCall at h
  split at h
  · rename_i err w hplace
    refine ⟨err, w, hplace, ?_⟩
    have hf : ∀ j, ((s.move k .resumed).tasks j).pid = (s.tasks j).pid ∧
        ((s.move k .resumed).tasks j).co = (s.tasks j).co ∧
        ((s.move k .resumed).tasks j).expireTime = (s.tasks j).expireTime := by
      intro j
      rw [tasks_move]
      exact ⟨rfl, rfl, rfl⟩
    have hnode : ∀ pid co, (s.move k .resumed).getNode pid co = s.getNode pid co := by
      intro pid co
      simp only [getNode, hf]
      rfl
    dsimp only at h
    rw [(hf k).1, (hf k).2.1, (hf k).2.2, hnode] at h
    split_ifs at h with hexp
    · refine .inr ?_
      cases hn : s.getNode (s.tasks k).pid (s.tasks k).co with
      | none =>
        simp only [hn] at h
        cases h
        exact .inr ⟨hexp, rfl, fun n hn => nomatch hn⟩
      | some n =>
        simp only [hn, (hf n).2.2] at h
        split_ifs at h with heq
        · cases h
          exact .inl ⟨hexp, n, rfl, heq, rfl⟩
        · cases h
          exact .inr ⟨hexp, rfl, fun n' hn' => Option.some.inj hn' ▸ heq⟩
    · cases h
      exact .inl ⟨not_not.1 hexp, rfl⟩
  · cases h

theorem resumeCall_frame (h : s.resumeCall k = some s') : EnvFrame s s' := by
  obtain ⟨err, w, hplace, hs'⟩ := resumeCall_spec h
  have hresume : ∀ c j, ((s.tasks j).controller.failed = true → c.failed = true) →
      EnvMove s s.next j { s.tasks j with
        controller := c, place := if j = k then .resumed else (s.tasks j).place } := by
    intro c j hc
    split_ifs with hj
    · subst hj
      exact .resume c hplace hc
    · exact .stay c hc
  rcases hs' with ⟨-, rfl⟩ | ⟨-, n, -, -, rfl⟩ | ⟨-, rfl, -⟩
  · refine ⟨rfl, le_rfl, fun j => ?_, fun _ _ h => .inl h⟩
    show EnvMove s s.next j ((s.move k .resumed).tasks j)
    rw [tasks_move]
    exact hresume _ j id
  · refine ⟨rfl, le_rfl, fun j => ?_, fun _ _ h => .inl h⟩
    show EnvMove s s.next j (((s.move k .resumed).modify n (settle err)).tasks j)
    rw [tasks_modify]
    split_ifs with hj
    · obtain ⟨c, hc, hfailed⟩ := settle_eq err ((s.move k .resumed).tasks n)
      rw [tasks_move] at hfailed
      rw [hc, hj, tasks_move]
      exact hresume c n hfailed
    · rw [tasks_move]
      exact hresume _ j id
  · refine ⟨rfl, le_rfl, fun j => ?_, fun _ _ h => .inl h⟩
    rw [tasks_move]
    exact hresume _ j id

end State

/-- **An action of the routine environment** leaves the client alone and makes one of
the moves with each task. -/
theorem envStep_frame {s s' : State} {a : EnvAction} (h : s.envStep a = some s') :
    EnvFrame s s' := by
  cases envStep_step h with
  | tick | mutexPost | resumeMutex | again =>
    exact frame_of_tasks_eq rfl rfl rfl fun _ _ h => h
  | startCoroutine | endCoroutine | leave =>
    exact frame_of_tasks_eq rfl rfl rfl fun _ _ h => parked_setCo (by nofun) _ _ h
  | callMethod => exact issue_frame rfl nofun
  | @park co timeout =>
    have hf : EnvFrame s (s.issue co timeout none .pushing .parked) :=
      issue_frame (.inl rfl) fun k j hj => ⟨(CoState.parked.inj hj).symm, rfl⟩
    exact ⟨hf.client, hf.next, hf.tasks, hf.parked⟩
  | push => exact issue_frame (.inr rfl) nofun
  | resumeCall hs => exact resumeCall_frame hs
  | @timeout k =>
    refine ⟨rfl, le_rfl, fun j => ?_, fun _ _ h => .inl h⟩
    show EnvMove s s.next j ((s.modify k expire).tasks j)
    rw [tasks_modify]
    split_ifs with hj
    · subst hj
      exact .stay _ fun _ => Controller.failed_setFailed _ _
    · exact .stay _ id
  | @acquire co k _ hco =>
    refine ⟨rfl, le_rfl, fun j => ?_, fun _ _ h => .inl (parked_setCo (by nofun) _ _ h)⟩
    show EnvMove s s.next j ((s.move k .requestQueue).tasks j)
    rw [tasks_move]
    split_ifs with hj
    · subst hj
      exact .push hco
    · exact .stay _ id

/-- **An action of the client, a receiver or a server** leaves the routine environment
alone and makes one of the moves with each task. -/
theorem clientStep_frame {s s' : State} {a : ClientAction} (h : s.clientStep a = some s') :
    ClientFrame a s s' := by
  cases clientStep_step h with
  | takeTask hk _ hr hs =>
    obtain ⟨henv, htasks⟩ := getNextConnection_frame hr
    obtain ⟨henv, hconns, hmoves⟩ := handleStep_frame henv htasks hk hs
    exact ⟨henv, fun d hd => hconns ▸ ended_of_getNextConnection hr d hd, hmoves⟩
  | lockTask _ hk | drainLocked _ hk | drainSubmit _ hk =>
    exact ⟨rfl, fun _ h => h, submit_moves (by rw [hk]; exact decide_eq_true rfl)⟩
  | takeClose | establish | lockMap => exact ⟨rfl, ended_update id, fun _ => .stay⟩
  | takeConnect | drainDone | clearChannel => exact ⟨rfl, fun _ h => h, fun _ => .stay⟩
  | clear hpc =>
    exact ⟨rfl, ended_update id, failAll_moves fun j hj => .clear hj hpc⟩
  | refuse hpc hpos hf =>
    exact ⟨rfl, ended_update id, failAll_moves fun j hj => .refuse hj hpc ⟨_, rfl, hpos, hf⟩⟩
  | drainDrop _ hk hlate =>
    exact ⟨rfl, fun _ h => h, forall_modify (.drop (.inr ⟨_, hk⟩) hlate) fun _ => .stay⟩
  | @drainWait k c late _ hk =>
    have hmoves : ∀ j, ClientMove (.drainTask k late) s j ((s.move k (.draining c)).tasks j) :=
      forall_modify (.drain hk) fun _ => .stay
    exact ⟨rfl, fun _ h => h, hmoves⟩
  | miss hreq => exact ⟨rfl, ended_update id, readFrame_moves hreq⟩
  | complete hreq hopen hp hco hexp ht =>
    rw [tasks_readFrame] at ht
    exact ⟨rfl, ended_update id, forall_modify
      (.complete hp rfl hreq hopen hco hexp ht) (readFrame_moves hreq)⟩
  | onClose => exact ⟨rfl, ended_update fun _ => rfl, fun _ => .stay⟩
  | respond f hreq =>
    exact ⟨rfl, fun _ h => h, forall_modify (.answer f hreq) fun _ => .stay⟩
  | expire hk => exact ⟨rfl, fun _ h => h, forall_modify (.expire hk) fun _ => .stay⟩
  | accept hk => exact ⟨rfl, fun _ h => h, forall_modify (.accept hk) fun _ => .stay⟩
  | serve c hk =>
    refine ⟨rfl, fun _ h => h, forall_modify ?_ fun _ => .stay⟩
    split_ifs
    · exact .serve _ _ hk
    · exact .serve _ _ hk

def Place.inner : Place → Bool
  | .pushing | .requestQueue | .serving => true
  | _ => false

/-- The numbers of calls to come are unused, and what is in a place of the inner RPC
was made through an `InnerRpcChannel`. -/
structure State.Kinds (s : State) : Prop where
  fresh : ∀ k, s.next ≤ k → (s.tasks k).place = .resumed
  inner : ∀ k, (s.tasks k).place.inner = true → (s.tasks k).channel = none
  parked : ∀ co k, s.cos co = .parked k → k < s.next ∧ (s.tasks k).channel = none

namespace State.Kinds

variable {s s' : State} {k : ℕ}

theorem lt_next (h : s.Kinds) (hk : (s.tasks k).place ≠ .resumed) : k < s.next :=
  not_le.1 fun hle => hk (h.fresh k hle)

theorem of_eq (h : s.Kinds) (henv : s'.toEnvironment = s.toEnvironment)
    (htasks : s'.tasks = s.tasks) : s'.Kinds := by
  have hnext : s'.next = s.next := congrArg next henv
  have hcos : s'.cos = s.cos := congrArg cos henv
  constructor
  · rw [hnext, htasks]
    exact h.fresh
  · rw [htasks]
    exact h.inner
  · rw [hnext, htasks, hcos]
    exact h.parked

theorem env (h : s.Kinds) (hf : EnvFrame s s') : s'.Kinds := by
  obtain ⟨-, hnext, htasks, hparked⟩ := hf
  refine ⟨fun k hk => ?_, fun k hk => ?_, fun co k hk => ?_⟩
  · have hmove := htasks k
    generalize s'.tasks k = t at hmove ⊢
    cases hmove with
    | stay c _ => exact h.fresh k (hnext.trans hk)
    | resume c _ _ => rfl
    | push hco => exact absurd (h.parked _ _ hco).1 (by omega)
    | make he hn _ _ => omega
  · have hmove := htasks k
    generalize s'.tasks k = t at hmove hk ⊢
    cases hmove with
    | stay c _ => exact h.inner k hk
    | resume c _ _ => cases hk
    | push hco => exact (h.parked _ _ hco).2
    | make _ _ _ hp =>
      split_ifs at hp with hc
      · exact hc
      · rw [hp] at hk
        cases hk
  · rcases hparked co k hk with hco | ⟨rfl, hn, hc⟩
    · obtain ⟨hlt, hc⟩ := h.parked co k hco
      refine ⟨hlt.trans_le hnext, ?_⟩
      have hmove := htasks k
      generalize s'.tasks k = t at hmove ⊢
      cases hmove with
      | stay _ _ | resume _ _ _ | push _ => exact hc
      | make he _ _ _ => omega
    · exact ⟨hn, hc⟩

theorem client (h : s.Kinds) {a : ClientAction} (hf : ClientFrame a s s') : s'.Kinds := by
  have hnext : s'.next = s.next := congrArg next hf.env
  have hcos : s'.cos = s.cos := congrArg cos hf.env
  refine ⟨fun k hk => ?_, fun k hk => ?_, fun co k hk => ?_⟩
  · exact (hf.tasks k).resumed.2 (h.fresh k (hnext ▸ hk))
  · rw [(hf.tasks k).const.2.2.1]
    refine h.inner k ?_
    have hmove := hf.tasks k
    generalize s'.tasks k = t at hmove hk
    cases hmove with
    | stay | answer | miss => exact hk
    | accept hq => rw [hq]; rfl
    | complete _ _ _ _ _ _ ht => rw [(complete_spec ht).2.1] at hk; cases hk
    | _ => cases hk
  · rw [hcos] at hk
    rw [hnext, (hf.tasks k).const.2.2.1]
    exact h.parked co k hk

theorem step (h : s.Kinds) {a : Action} (hs : s.step a = some s') : s'.Kinds := by
  cases a with
  | env a => exact h.env (envStep_frame hs)
  | client a => exact h.client (clientStep_frame hs)

end State.Kinds

theorem kinds_init (channels : ℕ → ℕ) : (State.init channels).Kinds :=
  ⟨fun _ _ => rfl, nofun, nofun⟩

end Corpc.Rpc
