/-
# The steps of the system

The actions of `Rpc.Environment` and `Rpc.Client`, branch by branch: where each branch is
taken and what it makes of the state (`EnvStep`, `ClientStep`).  What is proved of every
action is proved from these.
-/

import Corpc.Rpc.Client

namespace Corpc.Rpc

open Option

inductive EnvStep (s : State) : EnvAction → State → Prop where
  | tick (ms : ℕ) : EnvStep s (.tick ms) { s with now := s.now + ms }
  | startCoroutine {pid co : ℕ} (hco : s.cos co = .free) :
      EnvStep s (.startCoroutine pid co)
        { s.setCo co .running with coPid := Function.update s.coPid co pid }
  | endCoroutine {co : ℕ} (hco : s.cos co = .running) :
      EnvStep s (.endCoroutine co) (s.setCo co .free)
  | callMethod {co channel timeout : ℕ} (hco : s.cos co = .running) :
      EnvStep s (.callMethod co channel timeout)
        (s.issue co timeout (some channel) .taskQueue .blocked)
  | park {co timeout : ℕ} (hco : s.cos co = .running) :
      EnvStep s (.innerCallMethod co timeout true)
        { s.issue co timeout none .pushing .parked with mutexWaiters := s.mutexWaiters ++ [co] }
  | push {co timeout : ℕ} (hco : s.cos co = .running) :
      EnvStep s (.innerCallMethod co timeout false)
        (s.issue co timeout none .requestQueue .blocked)
  | mutexPost {co : ℕ} {rest : List ℕ} (hw : s.mutexWaiters = co :: rest) :
      EnvStep s .mutexPost
        { s with mutexWaiters := rest, mutexResumes := s.mutexResumes ++ [co] }
  | resumeMutex {co : ℕ} (hm : co ∈ s.mutexResumes) : EnvStep s (.resumeMutex co)
      ({ s with mutexResumes := s.mutexResumes.erase co }.activate co .mutex)
  | resumeCall {k : ℕ} {s' : State} (hs : s.resumeCall k = some s') : EnvStep s (.resumeCall k) s'
  | timeout {k : ℕ} (hm : k ∈ s.timeoutList) (hexp : (s.tasks k).expireTime ≤ s.now) :
      EnvStep s (.timeout k) ({ s.modify k State.expire with
        timeoutList := s.timeoutList.erase k }.activate (s.tasks k).co (.expiry k))
  | again {co k : ℕ} (ha : s.active.any (·.1 = co) = true) (hco : s.cos co = .parked k) :
      EnvStep s (.resumeCo co true)
        { s with active := s.active.eraseP (·.1 = co), mutexWaiters := co :: s.mutexWaiters }
  /-- `queue_.push` gets the mutex -/
  | acquire {co k : ℕ} (ha : s.active.any (·.1 = co) = true) (hco : s.cos co = .parked k) :
      EnvStep s (.resumeCo co false) (({ s with active := s.active.eraseP (·.1 = co) }.setCo co
        (.blocked k)).move k .requestQueue)
  /-- `CallMethod` returns -/
  | leave {co k : ℕ} {again : Bool} (ha : s.active.any (·.1 = co) = true)
      (hco : s.cos co = .blocked k) : EnvStep s (.resumeCo co again)
        { { s with active := s.active.eraseP (·.1 = co) }.setCo co .running with
          returned := Function.update s.returned k true }

/-- What `taskHandleRoutine` does with a task, once it has chosen a connection. -/
inductive HandleStep (s : State) (k c : ℕ) : State → Prop where
  | queue (hst : (s.conns c).st = .connecting) : HandleStep s k c (s.move k (.waitSend c))
  | drop (hst : (s.conns c).st = .connected) (hlate : s.mayDrop k = true) :
      HandleStep s k c (s.move k .dropped)
  | wait (hst : (s.conns c).st = .connected) :
      HandleStep s k c { s.move k (.taskHandle c) with taskHandle := .lock k }
  | submit (hst : (s.conns c).st = .connected) : HandleStep s k c (s.submit k c)

inductive ClientStep (s : State) : ClientAction → State → Prop where
  | takeTask {k fresh channel : ℕ} {late : Bool} {r : State × ℕ} {s' : State}
      (hp : (s.tasks k).place = .taskQueue) (hch : (s.tasks k).channel = some channel)
      (hr : s.getNextConnection channel fresh = some r) (hs : HandleStep r.1 k r.2 s') :
      ClientStep s (.takeTask k fresh late) s'
  | lockTask {k c : ℕ} (hpc : s.taskHandle = .lock k) (hp : (s.tasks k).place = .taskHandle c) :
      ClientStep s .lockTask { s.submit k c with taskHandle := .idle }
  | takeClose {c : ℕ} {rest : List ConnectionTask} (hpc : s.connection = .idle)
      (ht : s.connectionTasks = .close c :: rest)
      (hnone : ¬(s.anyCall fun t => t.place = .waitSend c) = true) :
      ClientStep s .takeConnectionTask { s.modifyConn c fun d => { d with st := .closed } with
        connectionTasks := rest, connection := .closing c }
  | takeConnect {c : ℕ} {rest : List ConnectionTask} (hpc : s.connection = .idle)
      (ht : s.connectionTasks = .connect c :: rest) :
      ClientStep s .takeConnectionTask
        { s with connectionTasks := rest, connection := .connecting c }
  | clear {c : ℕ} (hpc : s.connection = .closing c) :
      ClientStep s .clearConnection { (s.failAll (.waitResult c) enetdown).modifyConn c
        (fun d => { d with cleared := true }) with connection := .idle }
  | refuse {c err : ℕ} {outcome : ConnectOutcome} (hpc : s.connection = .connecting c)
      (hpos : outcome.possible = true) (hf : outcome.failure = some err) :
      ClientStep s (.connectDone outcome) { (s.failAll (.waitSend c) err).modifyConn c
        (fun d => { d with st := .closed }) with connection := .idle }
  | establish {c : ℕ} {outcome : ConnectOutcome} (hpc : s.connection = .connecting c)
      (hf : outcome.failure = none) :
      ClientStep s (.connectDone outcome) { s.modifyConn c
        (fun d => { d with st := .connected, added := true }) with connection := .drain c }
  | drainDrop {k c : ℕ} {late : Bool} (hpc : s.connection = .drain c)
      (hp : (s.tasks k).place = .waitSend c) (hlate : s.mayDrop k = true) :
      ClientStep s (.drainTask k late) (s.move k .dropped)
  | drainWait {k c : ℕ} {late : Bool} (hpc : s.connection = .drain c)
      (hp : (s.tasks k).place = .waitSend c) :
      ClientStep s (.drainTask k late)
        { s.move k (.draining c) with connection := .drainLock k c }
  | drainSubmit {k c : ℕ} {late : Bool} (hpc : s.connection = .drain c)
      (hp : (s.tasks k).place = .waitSend c) :
      ClientStep s (.drainTask k late) (s.submit k c)
  | drainLocked {k c : ℕ} (hpc : s.connection = .drainLock k c)
      (hp : (s.tasks k).place = .draining c) :
      ClientStep s .drainLocked { s.submit k c with connection := .drain c }
  | drainDone {c : ℕ} (hpc : s.connection = .drain c)
      (hnone : ¬(s.anyCall fun t => t.place = .waitSend c) = true) :
      ClientStep s .drainDone { s with connection := .idle }
  | clearChannel (channel : ℕ) :
      ClientStep s (.clearChannel channel) { s with
        channels := Function.update s.channels channel
          { s.channels channel with connections := [] } }
  | lockMap (c : ℕ) :
      ClientStep s (.lockMap c) (s.modifyConn c fun d => { d with locked := true })
  | miss {j c : ℕ} {f : Frame} (hreq : (s.tasks j).request = .answered c f) :
      ClientStep s (.decode j) (s.readFrame j c)
  | complete {j k c : ℕ} {f : Frame} {t : RpcClientTask}
      (hreq : (s.tasks j).request = .answered c f) (hopen : (s.conns c).ended = false)
      (hp : (s.tasks k).place = .waitResult c) (hco : (s.tasks k).co = (s.tasks j).co)
      (hexp : (s.tasks k).expireTime = (s.tasks j).expireTime)
      (ht : State.complete j f ((s.readFrame j c).tasks k) = some t) :
      ClientStep s (.decode j) ((s.readFrame j c).modify k fun _ => t)
  | onClose {c : ℕ} (hadd : (s.conns c).added = true) (hopen : (s.conns c).ended = false) :
      ClientStep s (.onClose c) { s.modifyConn c fun d => { d with ended := true } with
        connectionTasks := s.connectionTasks ++ [.close c] }
  | respond {k c : ℕ} (f : Frame) (hreq : (s.tasks k).request = .sent c) :
      ClientStep s (.respond k f) (s.modify k fun t => { t with request := .answered c f })
  | expire {k : ℕ} (hp : (s.tasks k).place = .requestQueue) :
      ClientStep s (.takeRequest k) (s.move k (.waitResume etimedout (.failure k)))
  | accept {k : ℕ} (hp : (s.tasks k).place = .requestQueue) :
      ClientStep s (.takeRequest k) (s.move k .serving)
  | serve {k : ℕ} (c : Controller ErrorText) (hp : (s.tasks k).place = .serving) :
      ClientStep s (.serve k c) (s.modify k fun t =>
        if t.timed then { t with place := .waitResume 0 (.response k), controller_1 := some c }
        else { t with place := .waitResume 0 (.response k), controller := c })

variable {s s' : State}

theorem resumeCo_step {co : ℕ} {again : Bool} (h : s.resumeCo co again = some s') :
    EnvStep s (.resumeCo co again) s' := by
  obtain ⟨ha, h⟩ := ite_none_right_eq_some.1 h
  unfold State.continueCo at h
  split at h
  · rename_i hco
    cases again with
    | true => exact some.inj h ▸ .again ha hco
    | false => exact some.inj h ▸ .acquire ha hco
  · rename_i hco
    exact some.inj h ▸ .leave ha hco
  · cases h
  · cases h

/-- **Every action of the routine environment takes one of the branches.** -/
theorem envStep_step {a : EnvAction} (h : s.envStep a = some s') : EnvStep s a s' := by
  cases a with
  | tick ms => exact some.inj h ▸ .tick ms
  | startCoroutine =>
    obtain ⟨hco, rfl⟩ := ite_some_none_eq_some.1 h
    exact .startCoroutine hco
  | endCoroutine =>
    obtain ⟨hco, rfl⟩ := ite_some_none_eq_some.1 h
    exact .endCoroutine hco
  | callMethod =>
    obtain ⟨hco, rfl⟩ := ite_some_none_eq_some.1 h
    exact .callMethod hco
  | innerCallMethod co timeout contended =>
    obtain ⟨hco, h⟩ := ite_none_right_eq_some.1 h
    cases contended with
    | true => exact some.inj h ▸ .park hco
    | false => exact some.inj h ▸ .push hco
  | mutexPost =>
    simp only [State.envStep, State.mutexPost] at h
    split at h
    · cases h
    · rename_i hw
      exact some.inj h ▸ .mutexPost hw
  | resumeMutex =>
    obtain ⟨hm, rfl⟩ := ite_some_none_eq_some.1 h
    exact .resumeMutex hm
  | resumeCall => exact .resumeCall h
  | timeout =>
    obtain ⟨⟨hm, hexp⟩, rfl⟩ := ite_some_none_eq_some.1 h
    exact .timeout hm hexp
  | resumeCo => exact resumeCo_step h

theorem getNextConnection_spec {channel c : ℕ} {r : State × ℕ}
    (h : s.getNextConnection channel c = some r) :
    (∃ chs, r.1 = { s with channels := chs } ∧ (s.conns r.2).st ≠ .closed) ∨
    ∃ chs, (s.conns c).created = false ∧ r.2 = c ∧
      r.1 = { s.modifyConn c (fun d => { d with created := true, st := .connecting }) with
        channels := chs, connectionTasks := s.connectionTasks ++ [.connect c] } := by
  have hnew : ∀ i, s.newConnection channel i c = some r → ∃ chs, (s.conns c).created = false ∧
      r.2 = c ∧
      r.1 = { s.modifyConn c (fun d => { d with created := true, st := .connecting }) with
        channels := chs, connectionTasks := s.connectionTasks ++ [.connect c] } := by
    intro i hi
    obtain ⟨hc, hi⟩ := ite_none_left_eq_some.1 hi
    cases hi
    exact ⟨_, Bool.eq_false_iff.2 hc, rfl, rfl⟩
  unfold State.getNextConnection at h
  dsimp only at h
  split_ifs at h with h0
  split at h
  · split_ifs at h with hst
    · exact .inr (hnew _ h)
    · cases h
      exact .inl ⟨_, rfl, hst⟩
  · exact .inr (hnew _ h)

theorem handleTask_step {k c : ℕ} {late : Bool} (h : s.handleTask k c late = some s') :
    HandleStep s k c s' := by
  unfold State.handleTask at h
  split at h
  · cases h
  · rename_i hst
    exact some.inj h ▸ .queue hst
  · rename_i hst
    split_ifs at h with _ hlate
    · exact some.inj h ▸ .drop hst hlate
    · exact some.inj h ▸ .wait hst
    · exact some.inj h ▸ .submit hst

theorem findEntry_spec {k c co : ℕ} (h : s.findEntry c co = some k) :
    (s.tasks k).place = .waitResult c ∧ (s.tasks k).co = co := by
  have := List.find?_some h
  simpa using this

theorem decode_step {j : ℕ} (h : s.decode j = some s') : ClientStep s (.decode j) s' := by
  unfold State.decode at h
  split at h
  · rename_i c f hreq
    split_ifs at h with hc
    split at h
    · rename_i k hk
      obtain ⟨hp, hco⟩ := findEntry_spec hk
      split_ifs at h with hexp
      · obtain ⟨t, ht, rfl⟩ := map_eq_some_iff.1 h
        exact .complete hreq hc.2 hp hco hexp ht
      · exact some.inj h ▸ .miss hreq
    · exact some.inj h ▸ .miss hreq
  · cases h

/-- **Every action takes one of the branches.** -/
theorem clientStep_step {a : ClientAction} (h : s.clientStep a = some s') : ClientStep s a s' := by
  cases a with
  | takeTask =>
    simp only [State.clientStep, State.takeTask] at h
    split_ifs at h with hk
    split at h
    · rename_i hch
      obtain ⟨r, hr, h⟩ := bind_eq_some_iff.1 h
      exact .takeTask hk.2.2 hch hr (handleTask_step h)
    · cases h
  | lockTask =>
    simp only [State.clientStep, State.lockTask] at h
    split at h
    · rename_i hpc
      split at h
      · rename_i hp
        split_ifs at h
        exact some.inj h ▸ .lockTask hpc hp
      · cases h
    · cases h
  | takeConnectionTask =>
    simp only [State.clientStep, State.takeConnectionTask] at h
    split_ifs at h with hpc
    split at h
    · cases h
    · rename_i ht
      split_ifs at h with hnone
      exact some.inj h ▸ .takeClose hpc ht hnone
    · rename_i ht
      split_ifs at h
      exact some.inj h ▸ .takeConnect hpc ht
  | clearConnection =>
    simp only [State.clientStep, State.clearConnection] at h
    split at h
    · rename_i hpc
      split_ifs at h
      exact some.inj h ▸ .clear hpc
    · cases h
  | connectDone outcome =>
    simp only [State.clientStep, State.connectDone] at h
    split at h
    · rename_i hpc
      obtain ⟨hpos, h⟩ := ite_none_right_eq_some.1 h
      split at h
      · rename_i hf
        split_ifs at h
        exact some.inj h ▸ .refuse hpc hpos hf
      · rename_i hf
        exact some.inj h ▸ .establish hpc hf
    · cases h
  | drainTask =>
    simp only [State.clientStep, State.drainTask] at h
    split at h
    · rename_i hpc
      split_ifs at h with hp _ hlate
      · exact some.inj h ▸ .drainDrop hpc hp hlate
      · exact some.inj h ▸ .drainWait hpc hp
      · exact some.inj h ▸ .drainSubmit hpc hp
    · cases h
  | drainLocked =>
    simp only [State.clientStep, State.drainLocked] at h
    split at h
    · rename_i hpc
      split_ifs at h with hp
      exact some.inj h ▸ .drainLocked hpc hp.2
    · cases h
  | drainDone =>
    simp only [State.clientStep, State.drainDone] at h
    split at h
    · rename_i hpc
      split_ifs at h with hnone
      exact some.inj h ▸ .drainDone hpc hnone
    · cases h
  | clearChannel channel =>
    obtain ⟨-, h⟩ := ite_none_left_eq_some.1 h
    exact some.inj h ▸ .clearChannel channel
  | lockMap c =>
    obtain ⟨-, rfl⟩ := ite_some_none_eq_some.1 h
    exact .lockMap c
  | decode => exact decode_step h
  | onClose =>
    obtain ⟨hc, rfl⟩ := ite_some_none_eq_some.1 h
    exact .onClose hc.1 hc.2.1
  | respond k f =>
    simp only [State.clientStep, State.respond] at h
    split at h
    · rename_i hreq
      exact some.inj h ▸ .respond f hreq
    · cases h
  | takeRequest =>
    obtain ⟨hp, h⟩ := ite_none_right_eq_some.1 h
    split_ifs at h
    · exact some.inj h ▸ .expire hp
    · exact some.inj h ▸ .accept hp
  | serve k c =>
    obtain ⟨hp, rfl⟩ := ite_some_none_eq_some.1 h
    exact .serve c hp

theorem client_step {a : ClientAction} (h : s.step (.client a) = some s') : ClientStep s a s' :=
  clientStep_step h

end Corpc.Rpc
