/-
# Every call has its counterpart

An `RpcClient` connection and an `RpcServer` connection that are joined by a reliable byte stream.

A request, the task made of it and its response bear the number of the call, which no routine reads
(`Link.marks`).  `Books` says that each entry of the map has one mark that carries what the entry
waits for.

`RpcServer::decode` returns `nullptr` for a method that is not registered and for a request that it
cannot parse; a task of a `not_care_response` method is not answered.
-/

import Corpc.Pipeline.Channel
import Corpc.Rpc.Exchange
import Mathlib.Data.List.Perm.Basic

namespace Corpc.Rpc

open Corpc.Basis Wire Pipeline Function List Option

variable {σ δ μ : Type}

/-- A request in the hands of the client's sender, with the number of the call that waits
for its response. -/
structure SentRequest where
  call : Option ℕ
  task : RequestTask
  deriving DecidableEq, Repr

structure SentResponse where
  call : Option ℕ
  task : ResponseTask
  deriving DecidableEq, Repr

def SentRequest.frame (r : SentRequest) : List UInt8 × List UInt8 :=
  (requestHead r.task, requestBody r.task)

def SentResponse.frame (r : SentResponse) : List UInt8 × List UInt8 :=
  (responseHead r.task, responseBody r.task)

def SentRequest.encode : EncodeFunction SentRequest := fun r => RpcClient.encode r.task

def SentResponse.encode : EncodeFunction SentResponse := fun r => RpcServer.encode r.task

variable {r : SentRequest}

theorem SentRequest.announces (h : r.task.request.msgSize < 2 ^ 31) :
    Announces requestConfig r.frame where
  length_head := length_requestHead r.task
  readSize := by
    rw [SentRequest.frame, length_requestBody]
    exact field_requestHead r.task (by omega)

theorem SentResponse.announces {r : SentResponse} (h : r.task.msgSize < 2 ^ 31) :
    Announces responseConfig r.frame where
  length_head := length_responseHead r.task
  readSize := by
    rw [SentResponse.frame, length_responseBody]
    exact field_responseHead r.task (by omega)

theorem ClientCall.expireTime_receive {pb : Protobuf δ μ} {errorCode : UInt32}
    {body : List UInt8} {call call' : ClientCall μ}
    (h : call.receive pb errorCode body = some call') : call'.expireTime = call.expireTime := by
  unfold ClientCall.receive at h
  split_ifs at h
  · cases h
    rfl
  · cases h
    rfl
  · split at h <;> obtain ⟨m, -, rfl⟩ := map_eq_some_iff.1 h <;> rfl

/-- **What `RpcClient::decode` does**: nothing where there is no entry for the response, and
otherwise it removes the entry. -/
theorem RpcClient.decode_cases {pb : Protobuf δ μ} {s s' : Callers ℕ μ} {head body : List UInt8}
    (h : RpcClient.decode pb s head body = some s') :
    s = s' ∧ (∀ k, s.waitResultCoMap (UInt64.ofNat (field head 4 8)) = some k →
        (s.calls k).expireTime ≠ UInt64.ofNat (field head 12 8)) ∨
      ∃ k call, s.waitResultCoMap (UInt64.ofNat (field head 4 8)) = some k ∧
        (s.calls k).expireTime = UInt64.ofNat (field head 12 8) ∧
        call.expireTime = (s.calls k).expireTime ∧
        s'.calls = update s.calls k call ∧
        s'.waitResultCoMap = update s.waitResultCoMap (UInt64.ofNat (field head 4 8)) none := by
  unfold RpcClient.decode at h
  dsimp only at h
  split_ifs at h with hsize
  split at h
  · rename_i hnone
    refine .inl ⟨some.inj h, fun k hk => ?_⟩
    rw [hnone] at hk
    cases hk
  · rename_i k hk
    split_ifs at h with hexp
    · refine .inl ⟨some.inj h, fun j hj => ?_⟩
      rw [hk] at hj
      cases hj
      exact hexp
    · obtain ⟨call, hcall, rfl⟩ := map_eq_some_iff.1 h
      exact .inr ⟨k, call, hk, not_not.1 hexp, ClientCall.expireTime_receive hcall, rfl, rfl⟩

/-- **The server answers a request**: its method is registered and has a response, and its
body is one of the method's requests. -/
def RequestTask.answered (pb : Protobuf δ μ) (server : RpcServer σ δ) (task : RequestTask) :
    Bool :=
  match server.getMethod task.serviceId task.methodId with
  | some method =>
    !method.notCareResponse && (pb.parseFromArray method.requestProto (requestBody task)).isSome
  | none => false

theorem RpcServer.decode_answered {pb : Protobuf δ μ} {server : RpcServer σ δ}
    {task : RequestTask} (h : task.answered pb server = true) :
    ∃ t, RpcServer.decode pb server (requestHead task) (requestBody task) = some t ∧
      t.response.isSome = true ∧ t.callId = task.co ∧ t.expireTime = task.expireTime := by
  unfold RequestTask.answered at h
  split at h
  · rename_i method hmethod
    obtain ⟨hcare, hparse⟩ := Bool.and_eq_true_iff.1 h
    obtain ⟨m, hm⟩ := isSome_iff_exists.1 hparse
    have hcare : method.notCareResponse = false := by simpa using hcare
    refine ⟨.ofRequest pb server task method m, ?_, ?_, rfl, rfl⟩
    · simp only [RpcServer.decode, serviceId_requestHead, methodId_requestHead, callId_requestHead,
        expireTime_requestHead, hmethod, hm, RpcServerTask.ofRequest]
    · simp [RpcServerTask.ofRequest, hcare]
  · cases h

/-- `RpcServer::decode` in the server's pipeline. -/
def serverDecode (pb : Protobuf δ μ) (server : RpcServer σ δ) :
    DecodeFunction Unit (RpcServerTask σ δ μ) :=
  .readOnly (fun _ head body => some ((), RpcServer.decode pb server head body)) fun _ => false

/-- `RpcClient::decode` in the client's pipeline, which has no worker. -/
def clientDecode (pb : Protobuf δ μ) : DecodeFunction (Callers ℕ μ) Unit where
  decode := fun s head body => (RpcClient.decode pb s head body).map fun s => (s, none)
  isDecodeError := fun _ => false
  leaves := fun _ _ body => body
  length_leaves := fun _ _ _ => rfl

/-- `addTimeoutTask` and `waitResultCoMap_[co] = task`, which replaces an entry. -/
def Callers.enter (s : Callers ℕ μ) (k : ℕ) (call : ClientCall μ) : Callers ℕ μ :=
  { s with
    calls := update s.calls k call
    waitResultCoMap := update s.waitResultCoMap call.co (some k)
    timeoutList :=
      if call.expireTime = 0 then s.timeoutList
      else update s.timeoutList call.co (some k) }

/-- The two connections: the requests on their way, the tasks of the workers, queued or running, and
the responses on their way.  `closing` says that one of them has started to close. -/
structure Link (σ δ μ : Type) where
  next : ℕ
  requests : Channel SentRequest Unit (RpcServerTask σ δ μ)
  workers : List (Option SentRequest × RpcServerTask σ δ μ)
  responses : Channel SentResponse (Callers ℕ μ) Unit
  closing : Bool

/-- Two connections that nothing was sent on; `calls` is what the tasks are before they
are made. -/
def Link.new (calls : ℕ → ClientCall μ) : Link σ δ μ where
  next := 0
  requests := .new requestConfig ()
  workers := []
  responses := .new responseConfig ⟨calls, fun _ => none, fun _ => none, [], []⟩
  closing := false

/-- The client: `waitResultCoMap_` and the tasks. -/
def Link.callers (s : Link σ δ μ) : Callers ℕ μ := s.responses.conn

/-- A call that waits for its response, one that does not, the routines of either side, a worker
that is done with a task, and the start of closing. -/
inductive LinkAction (μ : Type)
  | call (task : RequestTask) (controller : Controller ErrorText) (response : μ)
  | oneWay (task : RequestTask)
  | clientDownflow (space : ℕ)
  | serverReceive (n : ℕ)
  | finish (i : ℕ) (controller : Controller (List UInt8)) (response : ProtoMessage)
  | serverDownflow (space : ℕ)
  | clientReceive (n : ℕ)
  | close

/-- One action.  A call is entered and its request is sent in one step; a call that has run out by
then is neither entered nor sent.  What happens to connections that close is not followed. -/
def Link.step (pb : Protobuf δ μ) (server : RpcServer σ δ) (s : Link σ δ μ) :
    LinkAction μ → Option (Link σ δ μ)
  | .call task controller response =>
    if s.closing = false ∧ task.request.msgSize < 2 ^ 31 then
      some { s with
        next := s.next + 1
        responses := s.responses.modify fun c =>
          c.enter s.next (.new pb task.co task.expireTime controller response)
        requests := s.requests.send ⟨some s.next, { task with response := true }⟩ }
    else none
  | .oneWay task =>
    -- assert(care_response || done)
    if s.closing = false ∧ task.request.msgSize < 2 ^ 31 ∧ task.done = true then
      some { s with
        requests := s.requests.send ⟨none, { task with response := false, expireTime := 0 }⟩ }
    else none
  | .clientDownflow space =>
    if s.closing = false ∧ requestHeadSize ≤ space then
      (s.requests.downflow SentRequest.encode space).map fun ch => { s with requests := ch }
    else none
  | .serverReceive n =>
    if s.closing = false then
      match s.requests.receive requestConfig (serverDecode pb server) n with
      | .more ch =>
        some { s with requests := ch, workers := s.workers ++ s.requests.newTasks ch }
      | .stop .refused ch => some { s with requests := ch, closing := true }
      | .stop _ _ => none
    else none
  | .finish i controller response =>
    if s.closing = false then
      match s.workers[i]? with
      | none => none
      | some (r, t) =>
        let s := { s with workers := s.workers.eraseIdx i }
        -- if (rpcTask->response != NULL)
        if t.response.isSome then
          let answer : ResponseTask := ⟨t.callId, t.expireTime, controller, response⟩
          if answer.msgSize < 2 ^ 31 then
            some { s with responses := s.responses.send ⟨r.bind SentRequest.call, answer⟩ }
          else none
        else some s
    else none
  | .serverDownflow space =>
    if s.closing = false ∧ responseHeadSize ≤ space then
      (s.responses.downflow SentResponse.encode space).map fun ch => { s with responses := ch }
    else none
  | .clientReceive n =>
    if s.closing = false then
      match s.responses.receive responseConfig (clientDecode pb) n with
      | .more ch => some { s with responses := ch }
      | .stop .refused ch => some { s with responses := ch, closing := true }
      | .stop _ _ => none
    else none
  | .close => some { s with closing := true }

/-- Something on its way for a call: the number of the call, if it waits for a response,
and what is carried for `RpcClient::decode`. -/
structure Mark where
  call : Option ℕ
  callId : UInt64
  expireTime : UInt64
  deriving DecidableEq, Repr

def SentRequest.mark (r : SentRequest) : Mark := ⟨r.call, r.task.co, r.task.expireTime⟩

def SentResponse.mark (r : SentResponse) : Mark := ⟨r.call, r.task.callId, r.task.expireTime⟩

/-- The mark of an `RpcWorkerTask`. -/
def workerMark (w : Option SentRequest × RpcServerTask σ δ μ) : Mark :=
  ⟨w.1.bind SentRequest.call, w.2.callId, w.2.expireTime⟩

/-- All that is on its way: the requests in the client's send path and on the wire, the
tasks of the workers, the responses in the server's send path and on the wire. -/
def Link.marks (s : Link σ δ μ) : List Mark :=
  s.requests.flight.map SentRequest.mark ++
    (s.workers.map workerMark ++ s.responses.flight.map SentResponse.mark)

/-- **The books of the client**: each entry has one mark, which carries its call id and its
expire time, and the marks are those of calls that were made. -/
structure Books (c : Callers ℕ μ) (next : ℕ) (marks : List Mark) : Prop where
  entry : ∀ callId k, c.waitResultCoMap callId = some k →
    marks.filter (fun m => m.call = some k) = [⟨some k, callId, (c.calls k).expireTime⟩]
  fresh : ∀ m ∈ marks, ∀ k, m.call = some k → k < next

namespace Books

variable {c : Callers ℕ μ} {next : ℕ} {marks marks' : List Mark} {m : Mark}

theorem perm (h : Books c next marks) (hp : marks.Perm marks') : Books c next marks' where
  entry := fun callId k hk => by
    have hfilter := hp.filter fun m => decide (m.call = some k)
    rw [h.entry callId k hk] at hfilter
    exact (singleton_perm.1 hfilter).symm
  fresh := fun m hm => h.fresh m (hp.mem_iff.2 hm)

theorem cons (h : Books c next marks) (hm : m.call = none) : Books c next (m :: marks) where
  entry := fun callId k hk => by
    rw [filter_cons_of_neg (by simp [hm])]
    exact h.entry callId k hk
  fresh := fun m' hm' k hk => by
    rcases mem_cons.1 hm' with rfl | hm'
    · rw [hm] at hk
      cases hk
    · exact h.fresh m' hm' k hk

theorem tail (h : Books c next (m :: marks))
    (hm : ∀ callId k, c.waitResultCoMap callId = some k → m.call ≠ some k) :
    Books c next marks where
  entry := fun callId k hk => by
    have hentry := h.entry callId k hk
    rwa [filter_cons_of_neg (by simpa using hm callId k hk)] at hentry
  fresh := fun m' hm' => h.fresh m' (mem_cons_of_mem m hm')

theorem mark_eq (h : Books c next (m :: marks)) {callId : UInt64} {k : ℕ}
    (hk : c.waitResultCoMap callId = some k) (hm : m.call = some k) :
    m = ⟨some k, callId, (c.calls k).expireTime⟩ := by
  have hentry := h.entry callId k hk
  rw [filter_cons_of_pos (by simp [hm])] at hentry
  exact (cons.inj hentry).1

theorem enter (h : Books c next marks) (call : ClientCall μ) :
    Books (c.enter next call) (next + 1) (⟨some next, call.co, call.expireTime⟩ :: marks) where
  entry := fun callId k hk => by
    have hnew : ∀ m ∈ marks, m.call ≠ some next := fun m hm hcall =>
      absurd (h.fresh m hm next hcall) (lt_irrefl _)
    by_cases hid : callId = call.co
    · subst hid
      obtain rfl : next = k := by simpa [Callers.enter] using hk
      have hnone : marks.filter (fun m => m.call = some next) = [] :=
        filter_eq_nil_iff.2 fun m hm => by simpa using hnew m hm
      rw [filter_cons_of_pos (by simp), hnone]
      simp [Callers.enter]
    · have hold : c.waitResultCoMap callId = some k := by simpa [Callers.enter, hid] using hk
      have hentry := h.entry callId k hold
      have hne : k ≠ next := by
        rintro rfl
        have hmem : (⟨some k, callId, (c.calls k).expireTime⟩ : Mark) ∈
            marks.filter (fun m => m.call = some k) := by simp [hentry]
        exact hnew _ (mem_of_mem_filter hmem) rfl
      rw [filter_cons_of_neg (by simp [hne.symm]), hentry]
      simp [Callers.enter, hne]
  fresh := fun m hm k hk => by
    rcases mem_cons.1 hm with rfl | hm
    · obtain rfl : next = k := some.inj hk
      omega
    · have := h.fresh m hm k hk
      omega

theorem decode {pb : Protobuf δ μ} {r : SentResponse} {c' : Callers ℕ μ}
    (h : Books c next (r.mark :: marks))
    (hdec : RpcClient.decode pb c r.frame.1 r.frame.2 = some c') : Books c' next marks := by
  have hid : UInt64.ofNat (field r.frame.1 4 8) = r.task.callId := callId_responseHead r.task
  have hexp : UInt64.ofNat (field r.frame.1 12 8) = r.task.expireTime :=
    expireTime_responseHead r.task
  rcases RpcClient.decode_cases hdec with ⟨rfl, hno⟩ | ⟨k, call, hk, hexpire, hkeep, hcalls, hmap⟩
  · -- no entry, or one with another expire time
    refine h.tail fun callId k hk hcall => ?_
    have hmark := h.mark_eq hk hcall
    refine hno k ?_ ?_
    · rw [hid, show r.task.callId = callId from congrArg Mark.callId hmark]
      exact hk
    · rw [hexp]
      exact (congrArg Mark.expireTime hmark).symm
  · rw [hid] at hk hmap
    rw [hexp] at hexpire
    have hold : ∀ callId j, c'.waitResultCoMap callId = some j →
        callId ≠ r.task.callId ∧ c.waitResultCoMap callId = some j := by
      intro callId j hj
      rw [hmap] at hj
      by_cases hne : callId = r.task.callId
      · simp [hne] at hj
      · exact ⟨hne, by simpa [hne] using hj⟩
    have hsame : ∀ j, (c'.calls j).expireTime = (c.calls j).expireTime := by
      intro j
      rw [hcalls]
      by_cases hj : j = k
      · simp [hj, hkeep]
      · simp [hj]
    refine ⟨fun callId j hj => ?_, fun m hm => h.fresh m (mem_cons_of_mem _ hm)⟩
    obtain ⟨hne, hj⟩ := hold callId j hj
    have hnot : r.mark.call ≠ some j := fun hcall =>
      hne (congrArg Mark.callId (h.mark_eq hj hcall)).symm
    have hentry := h.entry callId j hj
    rw [filter_cons_of_neg (by simpa using hnot)] at hentry
    rw [hentry, hsame]

theorem decodeRequest {pb : Protobuf δ μ} {server : RpcServer σ δ}
    (h : Books c next (r.mark :: marks)) (hans : r.call ≠ none → r.task.answered pb server = true) :
    Books c next (((RpcServer.decode pb server r.frame.1 r.frame.2).map (some r, ·)).toList.map
      workerMark ++ marks) := by
  cases hcall : r.call with
  | none =>
    have htail : Books c next marks := h.tail fun callId k _ hk => by
      rw [SentRequest.mark, hcall] at hk
      cases hk
    cases RpcServer.decode pb server r.frame.1 r.frame.2 with
    | none => exact htail
    | some t => exact htail.cons hcall
  | some k =>
    obtain ⟨t, ht, -, hid, hexp⟩ := RpcServer.decode_answered (hans (by simp [hcall]))
    have hdec : RpcServer.decode pb server r.frame.1 r.frame.2 = some t := ht
    have hmark : workerMark (some r, t) = r.mark := by
      simp only [workerMark, SentRequest.mark, bind_some, hid, hexp]
    rw [hdec]
    simpa [hmark] using h

end Books

/-- The channels carry what was sent on them, the calls that wait are answered, and the
books are right. -/
structure Link.Sound (pb : Protobuf δ μ) (server : RpcServer σ δ) (s : Link σ δ μ) : Prop where
  requests : s.requests.Carries requestConfig SentRequest.encode SentRequest.frame
  responses : s.responses.Carries responseConfig SentResponse.encode SentResponse.frame
  answered : ∀ r ∈ s.requests.flight, r.call ≠ none → r.task.answered pb server = true
  workers : ∀ w ∈ s.workers, (workerMark w).call ≠ none → w.2.response.isSome = true
  books : Books s.callers s.next s.marks

def LinkAction.answered (pb : Protobuf δ μ) (server : RpcServer σ δ) : LinkAction μ → Bool
  | .call task _ _ => task.answered pb server
  | _ => true

namespace Link

variable {pb : Protobuf δ μ} {server : RpcServer σ δ} {s s' : Link σ δ μ}

theorem sound_new (calls : ℕ → ClientCall μ) : (new calls : Link σ δ μ).Sound pb server where
  requests := Channel.carries_new ..
  responses := Channel.carries_new ..
  answered := fun r hr => absurd hr not_mem_nil
  workers := fun w hw => absurd hw not_mem_nil
  books := ⟨fun callId k hk => (by cases hk), fun m hm => absurd hm not_mem_nil⟩

theorem Sound.send (h : s.Sound pb server)
    (hsize : r.task.request.msgSize < 2 ^ 31) (hdone : (r.task.response || r.task.done) = true)
    (hans : r.call ≠ none → r.task.answered pb server = true) :
    (s.requests.send r).Carries requestConfig SentRequest.encode SentRequest.frame ∧
      ∀ x ∈ (s.requests.send r).flight, x.call ≠ none → x.task.answered pb server = true := by
  refine ⟨h.requests.send (SentRequest.announces hsize) (encodes_requestBody hdone), fun x hx => ?_⟩
  rcases mem_append.1 hx with hx | hx
  · exact h.answered x hx
  · rwa [mem_singleton.1 hx]

theorem perm_send (flight : List SentRequest) (r : SentRequest) (marks : List Mark) :
    (r.mark :: (flight.map SentRequest.mark ++ marks)).Perm
      ((flight ++ [r]).map SentRequest.mark ++ marks) := by
  simpa using perm_middle.symm

theorem Sound.call (h : s.Sound pb server) {task : RequestTask} {controller : Controller ErrorText}
    {response : μ} (hans : task.answered pb server = true)
    (hs : s.step pb server (.call task controller response) = some s') : s'.Sound pb server := by
  obtain ⟨⟨-, hsize⟩, rfl⟩ := ite_some_none_eq_some.1 hs
  have hsend := h.send (r := ⟨some s.next, { task with response := true }⟩) hsize rfl fun _ => hans
  have henter := h.responses.modify fun c =>
    c.enter s.next (.new pb task.co task.expireTime controller response)
  refine ⟨hsend.1, henter, hsend.2, h.workers, ?_⟩
  exact (h.books.enter _).perm (perm_send _ ⟨some s.next, { task with response := true }⟩ _)

theorem Sound.oneWay (h : s.Sound pb server) {task : RequestTask}
    (hs : s.step pb server (.oneWay task) = some s') : s'.Sound pb server := by
  obtain ⟨⟨-, hsize, hdone⟩, rfl⟩ := ite_some_none_eq_some.1 hs
  have hsend := h.send (r := ⟨none, { task with response := false, expireTime := 0 }⟩) hsize hdone
    fun hcall => absurd rfl hcall
  exact ⟨hsend.1, h.responses, hsend.2, h.workers, (h.books.cons rfl).perm (perm_send ..)⟩

theorem Sound.clientDownflow (h : s.Sound pb server) {space : ℕ}
    (hs : s.step pb server (.clientDownflow space) = some s') : s'.Sound pb server := by
  obtain ⟨⟨-, hspace⟩, hs⟩ := ite_none_right_eq_some.1 hs
  obtain ⟨ch, hch, rfl⟩ := map_eq_some_iff.1 hs
  obtain ⟨hcarries, hflight, -⟩ := h.requests.of_downflow hspace hch
  refine ⟨hcarries, h.responses, by rw [hflight]; exact h.answered, h.workers, ?_⟩
  rw [Link.marks, hflight]
  exact h.books

theorem Sound.serverDownflow (h : s.Sound pb server) {space : ℕ}
    (hs : s.step pb server (.serverDownflow space) = some s') : s'.Sound pb server := by
  obtain ⟨⟨-, hspace⟩, hs⟩ := ite_none_right_eq_some.1 hs
  obtain ⟨ch, hch, rfl⟩ := map_eq_some_iff.1 hs
  obtain ⟨hcarries, hflight, hconn⟩ := h.responses.of_downflow hspace hch
  refine ⟨h.requests, hcarries, h.answered, h.workers, ?_⟩
  rw [Link.marks, hflight, Link.callers, hconn]
  exact h.books

/-- Between two calls of the server's decoder, with the tasks made so far and the requests
still in flight. -/
structure Receives (pb : Protobuf δ μ) (server : RpcServer σ δ) (s : Link σ δ μ)
    (tasks : List (Option SentRequest × RpcServerTask σ δ μ)) (flight : List SentRequest) :
    Prop where
  answered : ∀ r ∈ flight, r.call ≠ none → r.task.answered pb server = true
  workers : ∀ w ∈ tasks, (workerMark w).call ≠ none → w.2.response.isSome = true
  books : Books s.callers s.next (flight.map SentRequest.mark ++
    ((s.workers ++ tasks).map workerMark ++ s.responses.flight.map SentResponse.mark))

theorem Receives.decode {tasks : List (Option SentRequest × RpcServerTask σ δ μ)}
    {flight : List SentRequest} (h : s.Receives pb server tasks (r :: flight)) :
    s.Receives pb server
      (tasks ++ ((RpcServer.decode pb server r.frame.1 r.frame.2).map (some r, ·)).toList)
      flight where
  answered := fun x hx => h.answered x (mem_cons_of_mem r hx)
  workers := fun w hw hcall => by
    rcases mem_append.1 hw with hw | hw
    · exact h.workers w hw hcall
    · obtain ⟨t, ht, rfl⟩ := map_eq_some_iff.1 (mem_toList.1 hw)
      obtain ⟨t', ht', hresp, -, -⟩ := RpcServer.decode_answered (h.answered r (by simp) hcall)
      obtain rfl : t' = t := some.inj (ht'.symm.trans ht)
      exact hresp
  books := by
    have hbooks : Books s.callers s.next (r.mark :: (flight.map SentRequest.mark ++
        ((s.workers ++ tasks).map workerMark ++ s.responses.flight.map SentResponse.mark))) :=
      h.books
    refine (hbooks.decodeRequest (h.answered r (by simp))).perm (perm_iff_count.2 fun m => ?_)
    simp only [map_append, count_append]
    omega

theorem Sound.serverReceive (h : s.Sound pb server) {n : ℕ} (hopen : s'.closing = false)
    (hs : s.step pb server (.serverReceive n) = some s') : s'.Sound pb server := by
  obtain ⟨-, hs⟩ := ite_none_right_eq_some.1 hs
  split at hs
  · rename_i ch hch
    cases hs
    have hstart : s.Receives pb server [] s.requests.flight :=
      ⟨h.answered, fun w hw => absurd hw not_mem_nil, by simpa [Link.marks] using h.books⟩
    obtain ⟨hcarries, hend⟩ := h.requests.receive
      (P := fun _ tasks flight => s.Receives pb server tasks flight) hch hstart
      fun c tasks r flight c' task hP hdec => by
        obtain ⟨-, rfl⟩ := Prod.mk.inj (some.inj hdec)
        exact hP.decode
    refine ⟨hcarries, h.responses, hend.answered, fun w hw => ?_, hend.books⟩
    rcases mem_append.1 hw with hw | hw
    · exact h.workers w hw
    · exact hend.workers w hw
  · cases hs
    cases hopen
  · cases hs

theorem Sound.clientReceive (h : s.Sound pb server) {n : ℕ} (hopen : s'.closing = false)
    (hs : s.step pb server (.clientReceive n) = some s') : s'.Sound pb server := by
  obtain ⟨-, hs⟩ := ite_none_right_eq_some.1 hs
  split at hs
  · rename_i ch hch
    cases hs
    obtain ⟨hcarries, hbooks⟩ := h.responses.receive
      (P := fun c _ flight => Books c s.next (s.requests.flight.map SentRequest.mark ++
        (s.workers.map workerMark ++ flight.map SentResponse.mark))) hch h.books
      fun c tasks r flight c' task hP hdec => by
        obtain ⟨c'', hdecode, heq⟩ := map_eq_some_iff.1 hdec
        obtain ⟨rfl, rfl⟩ := Prod.mk.inj heq
        -- the mark of the response that is decoded comes first
        refine Books.decode (hP.perm (perm_iff_count.2 fun m => ?_)) hdecode
        simp only [map_cons, count_append, count_cons]
        omega
    exact ⟨h.requests, hcarries, h.answered, h.workers, hbooks⟩
  · cases hs
    cases hopen
  · cases hs

theorem Sound.finish (h : s.Sound pb server) {i : ℕ} {controller : Controller (List UInt8)}
    {response : ProtoMessage} (hs : s.step pb server (.finish i controller response) = some s') :
    s'.Sound pb server := by
  obtain ⟨-, hs⟩ := ite_none_right_eq_some.1 hs
  split at hs
  · cases hs
  · rename_i r t hw
    obtain ⟨hi, hget⟩ := List.getElem?_eq_some_iff.1 hw
    have hworkers : ∀ w ∈ s.workers.eraseIdx i, (workerMark w).call ≠ none →
        w.2.response.isSome = true := fun w hw => h.workers w (mem_of_mem_eraseIdx hw)
    have hmem : (r, t) ∈ s.workers := hget ▸ getElem_mem hi
    have hperm : ((r, t) :: s.workers.eraseIdx i).Perm s.workers := by
      rw [← hget]
      exact getElem_cons_eraseIdx_perm hi
    have hbooks : Books s.callers s.next (workerMark (r, t) ::
        (s.requests.flight.map SentRequest.mark ++ ((s.workers.eraseIdx i).map workerMark ++
          s.responses.flight.map SentResponse.mark))) := by
      refine h.books.perm (perm_iff_count.2 fun m => ?_)
      have hcount := (hperm.map workerMark).count_eq m
      simp only [Link.marks, map_cons, count_append, count_cons] at hcount ⊢
      omega
    dsimp only at hs
    split_ifs at hs with hresp hsize
    · -- the response takes the mark over
      cases hs
      have hmark : SentResponse.mark ⟨r.bind SentRequest.call,
          ⟨t.callId, t.expireTime, controller, response⟩⟩ = workerMark (r, t) := rfl
      refine ⟨h.requests, h.responses.send (SentResponse.announces hsize) (encodes_responseBody _),
        h.answered, hworkers, hbooks.perm (perm_iff_count.2 fun m => ?_)⟩
      simp only [Link.marks, Channel.flight_send, map_append, map_cons, map_nil,
        count_append, count_cons, count_nil, hmark]
      omega
    · cases hs
      refine ⟨h.requests, h.responses, h.answered, hworkers,
        hbooks.tail fun callId k hk hcall => ?_⟩
      exact hresp (h.workers _ hmem (by rw [hcall]; simp))

theorem Sound.step (h : s.Sound pb server) {a : LinkAction μ} (ha : a.answered pb server = true)
    (hs : s.step pb server a = some s') (hopen : s'.closing = false) : s'.Sound pb server := by
  cases a with
  | call task controller response => exact h.call ha hs
  | oneWay task => exact h.oneWay hs
  | clientDownflow space => exact h.clientDownflow hs
  | serverReceive n => exact h.serverReceive hopen hs
  | finish i controller response => exact h.finish hs
  | serverDownflow space => exact h.serverDownflow hs
  | clientReceive n => exact h.clientReceive hopen hs
  | close =>
    cases hs
    cases hopen

theorem closing_of_step {a : LinkAction μ} (hs : s.step pb server a = some s')
    (hopen : s'.closing = false) : s.closing = false := by
  cases a with
  | call | oneWay | clientDownflow | serverDownflow =>
    exact (ite_none_right_eq_some.1 hs).1.1
  | serverReceive | finish | clientReceive => exact (ite_none_right_eq_some.1 hs).1
  | close =>
    cases hs
    cases hopen

end Link

def oneCall (task : RequestTask) (response : μ) : List (LinkAction μ) :=
  [.call task .reset response, .clientDownflow 65536, .serverReceive 65536]

theorem exists_run_oneCall (pb : Protobuf δ μ) (server : RpcServer σ δ) (calls : ℕ → ClientCall μ)
    {task : RequestTask} (hsize : task.request.msgSize ≤ 1000) (hresp : task.response = true)
    (response : μ) :
    ∃ s, run (Link.step pb server) (.new calls) (oneCall task response) = some s ∧
      s.closing = false ∧ s.callers.waitResultCoMap task.co = some 0 ∧
      s.requests.flight = [] ∧ s.responses.flight = [] ∧
      s.workers = ((RpcServer.decode pb server (requestHead task) (requestBody task)).map
        (some ⟨some 0, task⟩, ·)).toList := by
  have htask : { task with response := true } = task := by rw [← hresp]
  have hann : Announces requestConfig (SentRequest.frame ⟨some 0, task⟩) :=
    SentRequest.announces (lt_of_le_of_lt hsize (by decide))
  have hbody : (requestBody task).length ≤ maxRequestSize := by
    rw [length_requestBody]
    exact hsize.trans (by decide)
  have hlen : (row SentRequest.frame [⟨some 0, task⟩]).length ≤ 65536 := by
    simp only [row_cons, row_nil, SentRequest.frame, append_nil, length_append,
      length_requestHead, length_requestBody, requestHeadSize]
    omega
  have henc : Encodes requestConfig.headSize (SentRequest.encode ⟨some 0, task⟩)
      (requestHead task) (requestBody task) := encodes_requestBody (by rw [hresp, Bool.true_or])
  have hdec : (serverDecode pb server).NoError := fun c head body => ⟨(), _, rfl, rfl⟩
  obtain ⟨ch, ch', hdown, hrec, hflight, t, ht, hnew⟩ :=
    Channel.exists_receive_one () hdec ⟨hann.length_head, hann.readSize, hbody⟩ henc hlen hlen
  obtain ⟨-, rfl⟩ := Prod.mk.inj (some.inj ht)
  let start : Link σ δ μ := { (Link.new calls : Link σ δ μ) with
    next := 1
    responses := (Link.new calls : Link σ δ μ).responses.modify fun c =>
      c.enter 0 (.new pb task.co task.expireTime .reset response)
    requests := (Link.new calls : Link σ δ μ).requests.send ⟨some 0, task⟩ }
  refine ⟨{ start with requests := ch', workers := ch.newTasks ch' }, ?_, rfl, ?_, hflight, rfl,
    hnew⟩
  · have hcall : Link.step pb server (.new calls) (.call task .reset response) = some start := by
      rw [Link.step, if_pos ⟨rfl, lt_of_le_of_lt hsize (by decide)⟩, htask]
      rfl
    have hwrite : Link.step pb server start (.clientDownflow 65536) =
        some { start with requests := ch } := by
      have hch : start.requests.downflow SentRequest.encode 65536 = some ch := hdown
      rw [Link.step, if_pos ⟨rfl, by decide⟩, hch]
      rfl
    have hread : Link.step pb server { start with requests := ch } (.serverReceive 65536) =
        some { start with requests := ch', workers := ch.newTasks ch' } := by
      have hopen : ({ start with requests := ch } : Link σ δ μ).closing = false := rfl
      rw [Link.step, if_pos hopen]
      dsimp only
      rw [hrec]
      rfl
    rw [oneCall, run_cons, hcall, bind_some, run_cons, hwrite, bind_some, run_cons, hread]
    rfl
  · simp [start, Link.callers, Callers.enter, ClientCall.new]

/-- The run leaves open connections, a client that waits for the call `callId`, and nothing on
its way. -/
def Loses (pb : Protobuf δ μ) (server : RpcServer σ δ) (calls : ℕ → ClientCall μ)
    (as : List (LinkAction μ)) (callId : UInt64) : Prop :=
  ∃ s, run (Link.step pb server) (.new calls) as = some s ∧ s.closing = false ∧
    s.callers.waitResultCoMap callId = some 0 ∧ s.marks = []

section Lost

variable {pb : Protobuf δ μ} {server : RpcServer σ δ} {task : RequestTask}

theorem loses_of_decode_none (calls : ℕ → ClientCall μ) (response : μ)
    (hsize : task.request.msgSize ≤ 1000) (hresp : task.response = true)
    (hdec : RpcServer.decode pb server (requestHead task) (requestBody task) = none) :
    Loses pb server calls (oneCall task response) task.co := by
  obtain ⟨s, hrun, hopen, hentry, hreq, hres, hworkers⟩ :=
    exists_run_oneCall pb server calls hsize hresp response
  refine ⟨s, hrun, hopen, hentry, ?_⟩
  rw [Link.marks, hreq, hres, hworkers, hdec]
  rfl

theorem loses_of_response_none (calls : ℕ → ClientCall μ) (response : μ)
    (hsize : task.request.msgSize ≤ 1000) (hresp : task.response = true)
    {t : RpcServerTask σ δ μ} (ht : t.response = none)
    (hdec : RpcServer.decode pb server (requestHead task) (requestBody task) = some t) :
    Loses pb server calls (oneCall task response ++ [.finish 0 .reset ⟨[], 0⟩]) task.co := by
  obtain ⟨s, hrun, hopen, hentry, hreq, hres, hworkers⟩ :=
    exists_run_oneCall pb server calls hsize hresp response
  rw [hdec] at hworkers
  have hfinish : Link.step pb server s (.finish 0 .reset ⟨[], 0⟩) =
      some { s with workers := [] } := by
    have hw : s.workers = [(some ⟨some 0, task⟩, t)] := hworkers
    simp [Link.step, hopen, hw, ht]
  refine ⟨{ s with workers := [] }, ?_, hopen, hentry, ?_⟩
  · rw [run_append, hrun, bind_some, run_cons, hfinish]
    rfl
  · simp [Link.marks, hreq, hres]

end Lost

/-- **Nothing is lost**: the bytes of each channel are the frames of what is in flight on it, and
each entry of `waitResultCoMap_` has one counterpart. -/
structure Link.Accounted (s : Link σ δ μ) : Prop where
  requests : s.requests.bytes SentRequest.frame = row SentRequest.frame s.requests.flight
  responses : s.responses.bytes SentResponse.frame = row SentResponse.frame s.responses.flight
  entries : ∀ callId k, s.callers.waitResultCoMap callId = some k →
    s.marks.filter (fun m => m.call = some k) = [⟨some k, callId, (s.callers.calls k).expireTime⟩]

/-- **No call is lost that the server answers**, as long as no side has started to close. -/
theorem link_accounted (pb : Protobuf δ μ) (server : RpcServer σ δ) (calls : ℕ → ClientCall μ)
    {as : List (LinkAction μ)} {s : Link σ δ μ}
    (h : run (restrict (fun _ a => a.answered pb server) (Link.step pb server)) (.new calls) as =
      some s) (hopen : s.closing = false) : s.Accounted := by
  have hs := run_restrict_invariant (I := fun s => s.closing = false → s.Sound pb server)
    (fun t a t' ht ha hs hopen' => (ht (Link.closing_of_step hs hopen')).step ha hs hopen')
    (fun _ => Link.sound_new calls) h hopen
  exact ⟨hs.requests.bytes_eq, hs.responses.bytes_eq, hs.books.entry⟩

def noCalls : ℕ → ClientCall (ℕ × List UInt8) := fun _ => .new (.ofBytes ℕ) 0 0 .reset (1, [])

def oneRequest (serviceId : UInt32) : RequestTask :=
  ⟨serviceId, 0, 3, 0, ⟨[1, 2], 2⟩, true, false⟩

theorem link_accounted_worker :
    ∃ s, run (restrict (fun _ a => a.answered (.ofBytes ℕ) oneService)
        (Link.step (.ofBytes ℕ) oneService)) (.new noCalls) (oneCall (oneRequest 7) (1, [])) =
          some s ∧ s.closing = false ∧ s.callers.waitResultCoMap 3 = some 0 ∧
      s.marks = [⟨some 0, 3, 0⟩] ∧ s.Accounted := by
  have hsize : (oneRequest 7).request.msgSize ≤ 1000 := by decide
  obtain ⟨s, hrun, hopen, hentry, hreq, hres, hworkers⟩ :=
    exists_run_oneCall (.ofBytes ℕ) oneService noCalls hsize rfl (1, [])
  have hok : ∀ a ∈ oneCall (oneRequest 7) (1, []), ∀ s : Link Unit ℕ (ℕ × List UInt8),
      (fun _ a => LinkAction.answered (.ofBytes ℕ) oneService a) s a = true := by
    simp only [oneCall, forall_mem_cons]
    exact ⟨fun _ => by decide, fun _ => rfl, fun _ => rfl, fun _ h => absurd h not_mem_nil⟩
  rw [← run_restrict hok] at hrun
  refine ⟨s, hrun, hopen, hentry, ?_, link_accounted _ _ _ hrun hopen⟩
  rw [Link.marks, hreq, hres, hworkers]
  decide +kernel

def emptyMessages : Protobuf ℕ ℕ where
  descriptor := id
  new := id
  serialize := fun _ => []
  parseFromArray := fun d bytes => if bytes = [] then some d else none
  mergeFrom := fun m _ => m
  descriptor_new := fun _ => rfl
  parse_serialize := fun _ => rfl
  mergeFrom_new := fun _ => rfl

/-- A server whose only method is `not_care_response`. -/
def oneWayService : RpcServer Unit ℕ :=
  (RpcServer.registerService ⟨fun _ => none⟩ 7 ⟨(), [⟨0, 1, true, false⟩]⟩).2

/-- **A call is lost** if its service is not registered, if the server cannot parse its request, or
if the method has no response for the server. -/
theorem link_loses_call :
    Loses (.ofBytes ℕ) oneService noCalls (oneCall (oneRequest 9) (1, [])) 3 ∧
    Loses emptyMessages oneService (fun _ => .new emptyMessages 0 0 .reset 1)
      (oneCall (oneRequest 7) 1) 3 ∧
    Loses (.ofBytes ℕ) oneWayService noCalls
      (oneCall (oneRequest 7) (1, []) ++ [.finish 0 .reset ⟨[], 0⟩]) 3 := by
  have h7 : (oneRequest 7).request.msgSize ≤ 1000 := by decide
  have h9 : (oneRequest 9).request.msgSize ≤ 1000 := by decide
  refine ⟨loses_of_decode_none _ _ h9 rfl ?_, loses_of_decode_none _ _ h7 rfl ?_, ?_⟩
  · decide +kernel
  · decide +kernel
  · exact loses_of_response_none noCalls (1, []) h7 rfl rfl (by rfl)

end Corpc.Rpc
