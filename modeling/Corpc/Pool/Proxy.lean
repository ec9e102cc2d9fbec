/-
# Who holds a connection

`Proxy::take` is a call of the inner RPC with a time-out of ten seconds, `Proxy::put` is one
without response.
-/

import Corpc.Pool.Takers
import Corpc.Rpc.CallsKept

namespace Corpc.Pool

open Corpc.Basis Function List Option Nat Rpc.State Rpc Rpc.State.Calls State
open Corpc.Rpc (EnvAction ErrorText Controller RpcClientTask Settles)

/-- The pool and its callers: the routine environment with the calls of `take`, the handles in the
responses of the callers, and the requests of `put` that the pool has not handled. -/
structure System where
  rpc : Rpc.State
  pool : State
  response : ℕ → Option ℕ
  puts : List (ℕ × Bool)

inductive SystemAction where
  /-- a coroutine calls `Proxy::take` -/
  | take (co : ℕ) (contended : Bool)
  /-- `requestQueueRoutine` at a request of `take` -/
  | accept (call : ℕ)
  | pool (a : Action)
  /-- `take` returns to the server -/
  | serve (call : ℕ)
  /-- `resumeRoutine` at the message of a call -/
  | resume (call : ℕ)
  | env (a : EnvAction)
  | put (call : ℕ) (error : Bool)
  /-- the pool handles a request of `put` -/
  | servePut (handle : ℕ) (error : Bool)
  deriving DecidableEq, Repr

def shared : EnvAction → Bool
  | .callMethod .. | .innerCallMethod .. | .resumeCall _ => false
  | _ => true

def Action.internal : Action → Bool
  | .take _ | .put _ _ => false
  | _ => true

namespace System

def init : System where
  rpc := Rpc.State.init fun _ => 0
  pool := State.init
  response := fun _ => none
  puts := []

variable (d : Driver) (maxConnectNum : UInt32) (s : System)

/-- The responses after `resumeRoutine` handled the message of a call: the handle in `response_1`
is merged into the response of the node's call. -/
def merge (k : ℕ) : ℕ → Option ℕ :=
  match (s.rpc.tasks k).place with
  | .waitResume 0 _ =>
    match s.rpc.getNode (s.rpc.tasks k).pid (s.rpc.tasks k).co with
    | some n =>
      if (s.rpc.tasks n).expireTime = (s.rpc.tasks k).expireTime ∧
          (s.rpc.tasks n).controller_1.any (·.failed) = false then
        match s.pool.takes n with
        | .delivered h => update s.response n (some h)
        | _ => s.response
      else s.response
    | none => s.response
  | _ => s.response

def step : SystemAction → Option System
  | .take co contended =>
    (s.rpc.step (.env (.innerCallMethod co 10000 contended))).map fun r => { s with rpc := r }
  | .accept k =>
    (s.rpc.step (.client (.takeRequest k))).bind fun r =>
      if (r.tasks k).place = .serving then
        (s.pool.step d maxConnectNum (.take k)).map fun p => { s with rpc := r, pool := p }
      else some { s with rpc := r }
  | .pool a =>
    if a.internal then (s.pool.step d maxConnectNum a).map fun p => { s with pool := p }
    else none
  | .serve k =>
    match s.pool.takes k with
    | .delivered _ =>
      (s.rpc.step (.client (.serve k .reset))).map fun r => { s with rpc := r }
    | .failed text =>
      (s.rpc.step (.client (.serve k (Controller.reset.setFailed
        (.text text.toUTF8.toList))))).map fun r => { s with rpc := r }
    | _ => none
  | .resume k =>
    (s.rpc.step (.env (.resumeCall k))).map fun r => { s with rpc := r, response := s.merge k }
  | .env a =>
    if shared a then (s.rpc.step (.env a)).map fun r => { s with rpc := r } else none
  | .put k error =>
    match s.response k with
    | some h =>
      if s.rpc.returned k ∧ (s.rpc.tasks k).controller.failed = false then
        some { s with
          response := update s.response k none
          puts := s.puts ++ [(h, error)] }
      else none
    | none => none
  | .servePut h error =>
    if (h, error) ∈ s.puts then
      (s.pool.step d maxConnectNum (.put h error)).map fun p =>
        { s with pool := p, puts := s.puts.erase (h, error) }
    else none

/-- `timeoutRoutine` does not give up a call that the pool is working on, or has a connection
for. -/
def inTime (s : System) : SystemAction → Bool
  | .env (.timeout k) =>
    match s.pool.takes k with
    | .running | .delivered _ => false
    | _ => true
  | _ => true

/-- `Proxy::take` returned the connection to a caller, which has not put it back. -/
def holds (s : System) (h k : ℕ) : Prop :=
  s.rpc.returned k = true ∧ (s.rpc.tasks k).controller.failed = false ∧ s.response k = some h

end System

section Env

variable {r r' : Rpc.State} {j k : ℕ}

/-- Nothing happens to the calls, but that a request gets into the queue or a call returns. -/
structure Calm (r r' : Rpc.State) : Prop where
  timeoutList : r'.timeoutList = r.timeoutList
  next : r'.next = r.next
  tasks : ∀ j, r'.tasks j = r.tasks j ∨
    (r.tasks j).place = .pushing ∧ r'.tasks j = { r.tasks j with place := .requestQueue }
  back : ∀ j, r.awaits j ∨ r.returned j = true → r'.awaits j ∨ r'.returned j = true

theorem Calm.of_eq (hlist : r'.timeoutList = r.timeoutList) (hnext : r'.next = r.next)
    (htasks : r'.tasks = r.tasks) (hcos : ∀ co, (r'.cos co).call = (r.cos co).call)
    (hreturned : r'.returned = r.returned) : Calm r r' := by
  refine ⟨hlist, hnext, fun j => .inl (congrFun htasks j), fun j hj => ?_⟩
  rw [hreturned]
  refine hj.imp_left fun hj => ?_
  rw [awaits, htasks, hcos]
  exact hj

theorem calm_of_setCo {co : ℕ} {st : Rpc.CoState} {coPid : ℕ → ℕ} (hco : (r.cos co).call = none)
    (hst : st.call = none) : Calm r { r.setCo co st with coPid := coPid } := by
  refine .of_eq rfl rfl rfl (fun co' => ?_) rfl
  show (update r.cos co st co').call = _
  by_cases hc : co' = co
  · rw [hc, update_self, hst, hco]
  · rw [update_of_ne hc]

theorem calm_of_resumeCo (hc : r.Calls) {co : ℕ} {again : Bool}
    (hs : r.resumeCo co again = some r') : Calm r r' := by
  unfold resumeCo at hs
  split at hs
  · unfold continueCo at hs
    split at hs
    · rename_i k hco
      split at hs
      · cases hs
        exact .of_eq rfl rfl rfl (fun _ => rfl) rfl
      · -- the request gets into the queue
        cases hs
        have hplace := hc.parked co k hco
        refine ⟨rfl, rfl, fun j => ?_, fun j hj => hj.imp_left fun hj => ?_⟩
        · rw [tasks_move]
          by_cases hj : j = k
          · exact .inr ⟨hj ▸ hplace, by rw [if_pos hj]; rfl⟩
          · exact .inl (by rw [if_neg hj]; rfl)
        · rw [awaits, tasks_move]
          show (update r.cos co (.blocked k) (r.tasks j).co).call = some j
          by_cases hj' : (r.tasks j).co = co
          · rw [hj', update_self]
            rw [awaits, hj', hco] at hj
            exact hj
          · rw [update_of_ne hj']
            exact hj
    · -- the call returns
      rename_i k hco
      cases hs
      refine ⟨rfl, rfl, fun j => .inl rfl, fun j hj => ?_⟩
      show (update r.cos co .running (r.tasks j).co).call = some j ∨
        update r.returned k true j = true
      by_cases hjk : j = k
      · exact .inr (by rw [hjk, update_self])
      · rw [update_of_ne hjk]
        refine hj.imp_left fun hj => ?_
        by_cases hj' : (r.tasks j).co = co
        · rw [awaits, hj', hco] at hj
          exact absurd (some.inj hj).symm hjk
        · rw [update_of_ne hj']
          exact hj
    · cases hs
    · cases hs
  · cases hs

theorem calm_of_shared (hc : r.Calls) {a : EnvAction} (ha : shared a = true)
    (hs : r.envStep a = some r') : (∃ k, a = .timeout k) ∨ Calm r r' := by
  cases a with
  | tick ms =>
    cases hs
    exact .inr (.of_eq rfl rfl rfl (fun _ => rfl) rfl)
  | startCoroutine pid co =>
    simp only [envStep, startCoroutine] at hs
    split at hs
    · rename_i hco
      cases hs
      exact .inr (calm_of_setCo (by rw [hco]; rfl) rfl)
    · cases hs
  | endCoroutine co =>
    simp only [envStep, endCoroutine] at hs
    split at hs
    · rename_i hco
      cases hs
      exact .inr (calm_of_setCo (by rw [hco]; rfl) rfl)
    · cases hs
  | mutexPost =>
    simp only [Rpc.State.envStep, Rpc.State.mutexPost] at hs
    split at hs
    · cases hs
    · cases hs
      exact .inr (.of_eq rfl rfl rfl (fun _ => rfl) rfl)
  | resumeMutex co =>
    simp only [Rpc.State.envStep, Rpc.State.resumeMutex] at hs
    split at hs
    · cases hs
      exact .inr (.of_eq rfl rfl rfl (fun _ => rfl) rfl)
    · cases hs
  | timeout k => exact .inl ⟨k, rfl⟩
  | resumeCo co again => exact .inr (calm_of_resumeCo hc hs)
  | callMethod | innerCallMethod | resumeCall => cases ha

theorem tasks_of_timeout (hs : r.timeout k = some r') (hj : j ≠ k) : r'.tasks j = r.tasks j := by
  unfold timeout at hs
  split at hs
  · cases hs
    show (r.modify k expire).tasks j = r.tasks j
    rw [tasks_modify, if_neg hj]
  · cases hs

theorem controller_settle (err : ℕ) (t : RpcClientTask) (p : Rpc.Place) :
    (Rpc.State.settle err { t with place := p }).controller =
      (Rpc.State.settle err t).controller := by
  unfold settle
  split
  · rfl
  · cases hc : t.controller_1 with
    | none => rfl
    | some c =>
      dsimp only
      split <;> rfl

theorem controller_of_innerCallMethod {co timeout : ℕ} {contended : Bool}
    (hs : r.innerCallMethod co timeout contended = some r') :
    (r'.tasks r.next).controller.failed = false := by
  unfold innerCallMethod at hs
  split at hs
  · split at hs
    all_goals
      cases hs
      simp [issue, newTask]
  · cases hs

theorem tasks_of_resumeCall (hc : r.Calls) (hs : r.resumeCall k = some r') :
    (∀ j, j ≠ k → r'.tasks j = r.tasks j) ∧
      ((r'.tasks k).controller = (r.tasks k).controller ∨ k ∈ r.timeoutList ∧ ∃ err w,
        (r.tasks k).place = .waitResume err w ∧
        (r'.tasks k).controller = (Rpc.State.settle err (r.tasks k)).controller) := by
  obtain ⟨err, w, hplace, hs'⟩ := resumeCall_spec hs
  have hmove : ∀ j, j ≠ k → (r.move k .resumed).tasks j = r.tasks j := by
    intro j hj
    rw [tasks_move, if_neg hj]
  rcases hs' with ⟨-, rfl⟩ | ⟨-, n, hn, hexp, rfl⟩ | ⟨-, rfl, -⟩
  · refine ⟨hmove, .inl ?_⟩
    show ((r.move k .resumed).tasks k).controller = _
    rw [tasks_move]
  · obtain ⟨hmem, hco⟩ := getNode_spec hn
    obtain rfl := hc.call_of_node (.inl (by rw [hplace]; rfl)) hmem hco hexp
    refine ⟨fun j hj => ?_, .inr ⟨hmem, err, w, hplace, ?_⟩⟩
    · show ((r.move n .resumed).modify n (settle err)).tasks j = _
      rw [tasks_modify, if_neg hj, hmove j hj]
    · show (((r.move n .resumed).modify n (settle err)).tasks n).controller = _
      rw [tasks_modify, if_pos rfl, tasks_move]
      exact controller_settle err (r.tasks n) _
  · refine ⟨hmove, .inl ?_⟩
    rw [tasks_move]

end Env

def carries (t : RpcClientTask) : Prop :=
  t.place = .serving ∨ (∃ w, t.place = .waitResume 0 w) ∧
    ∃ c, t.controller_1 = some c ∧ c.failed = false

namespace System

variable {d : Driver} {maxConnectNum : UInt32} {s s' : System}

/-- The invariant: a call that the pool works on or has a connection for is being served or on its
way back, its caller waits for it, and a connection that is lent has an owner. -/
structure Owned (maxConnectNum : UInt32) (s : System) : Prop where
  coherent : s.rpc.Coherent
  accounted : s.pool.Accounted maxConnectNum
  manned : s.pool.Manned
  timed : ∀ k, k < s.rpc.next → (s.rpc.tasks k).timed = true
  waits : ∀ k, k ∈ s.rpc.timeoutList → (s.rpc.tasks k).controller.failed = false
  started : ∀ k, s.pool.takes k ≠ .unstarted → k < s.rpc.next
  running : ∀ k, s.pool.takes k = .running →
    (s.rpc.tasks k).place = .serving ∧ k ∈ s.rpc.timeoutList
  sent : ∀ k h, s.pool.takes k = .delivered h → k ∈ s.rpc.timeoutList → carries (s.rpc.tasks k)
  owner : ∀ p, p ∈ s.pool.delivered → p.2 ∈ s.rpc.timeoutList ∨ s.response p.2 = some p.1 ∨
    ∃ error, (p.1, error) ∈ s.puts
  got : ∀ k h, s.response k = some h → k < s.rpc.next ∧ k ∉ s.rpc.timeoutList ∧
    (s.rpc.tasks k).controller.failed = false
  back : ∀ k, k < s.rpc.next → s.rpc.awaits k ∨ s.rpc.returned k = true

namespace Owned

section

variable (h : s.Owned maxConnectNum)
include h

/-- **The pool acts.**  A call that begins is one that is served and waited for, and of the
requests of `put` the one that was handled may go. -/
theorem ofPool {a : Action} {p : State} {puts : List (ℕ × Bool)}
    (hs : s.pool.step d maxConnectNum a = some p)
    (hbegin : ∀ k, a = .take k → (s.rpc.tasks k).place = .serving ∧ k ∈ s.rpc.timeoutList)
    (hputs : ∀ q, q ∈ s.pool.delivered → q ∈ p.delivered →
      (∃ error, (q.1, error) ∈ s.puts) → ∃ error, (q.1, error) ∈ puts) :
    { s with pool := p, puts := puts }.Owned maxConnectNum := by
  have hmove := move_of_step h.accounted hs
  have hserved : ∀ k, s.pool.takes k = .running ∨ a = .take k →
      (s.rpc.tasks k).place = .serving ∧ k ∈ s.rpc.timeoutList :=
    fun k hk => hk.elim (h.running k) (hbegin k)
  refine ⟨h.coherent, h.accounted.step hs, h.manned.move hmove, h.timed, h.waits, ?_, ?_, ?_, ?_,
    h.got, h.back⟩
  · intro k hk
    rcases takes_of_move h.manned hmove k with he | hk'
    · exact h.started k (he ▸ hk)
    · exact h.coherent.calls.awaits_lt (h.coherent.calls.node k (hserved k hk').2).2
  · intro k hk
    rcases takes_of_move h.manned hmove k with he | hk'
    · exact h.running k (he ▸ hk)
    · exact hserved k hk'
  · intro k x hk hmem
    rcases takes_of_move h.manned hmove k with he | hk'
    · exact h.sent k x (he ▸ hk) hmem
    · exact .inl (hserved k hk').1
  · intro q hq
    rcases delivered_of_move h.manned hmove q hq with hq' | hk
    · exact (h.owner q hq').imp_right fun hq'' => hq''.imp_right (hputs q hq' hq)
    · exact .inl (hserved q.2 hk).2

/-- **The environment acts**, and the tasks that matter stay as they are. -/
theorem ofEnv {r : Rpc.State} (hr : r.Coherent)
    (hnext : r.next = s.rpc.next) (hlist : ∀ k, k ∈ r.timeoutList → k ∈ s.rpc.timeoutList)
    (hstays : ∀ k, k ∈ s.rpc.timeoutList → (s.pool.takes k = .running ∨
      ∃ x, s.pool.takes k = .delivered x) → k ∈ r.timeoutList)
    (htimed : ∀ k, (r.tasks k).timed = (s.rpc.tasks k).timed)
    (hcontroller : ∀ k, k ∈ r.timeoutList ∨ k ∉ s.rpc.timeoutList →
      (r.tasks k).controller = (s.rpc.tasks k).controller)
    (hserving : ∀ k, s.pool.takes k = .running → (s.rpc.tasks k).place = .serving →
      (r.tasks k).place = .serving)
    (hcarries : ∀ k x, s.pool.takes k = .delivered x → k ∈ s.rpc.timeoutList →
      carries (s.rpc.tasks k) → carries (r.tasks k))
    (hback : ∀ k, s.rpc.awaits k ∨ s.rpc.returned k = true → r.awaits k ∨ r.returned k = true) :
    { s with rpc := r }.Owned maxConnectNum := by
  refine ⟨hr, h.accounted, h.manned, ?_, ?_, ?_, ?_, ?_, ?_, ?_, ?_⟩
  · intro k hk
    rw [htimed]
    exact h.timed k (hnext ▸ hk)
  · intro k hk
    rw [hcontroller k (.inl hk)]
    exact h.waits k (hlist k hk)
  · intro k hk
    exact lt_of_lt_of_eq (h.started k hk) hnext.symm
  · intro k hk
    obtain ⟨hplace, hmem⟩ := h.running k hk
    exact ⟨hserving k hk hplace, hstays k hmem (.inl hk)⟩
  · intro k x hk hmem
    exact hcarries k x hk (hlist k hmem) (h.sent k x hk (hlist k hmem))
  · intro p hp
    exact (h.owner p hp).imp_left fun hmem =>
      hstays p.2 hmem (.inr ⟨p.1, h.manned.delivered p hp⟩)
  · intro k x hk
    obtain ⟨hlt, hmem, hfailed⟩ := h.got k x hk
    refine ⟨lt_of_lt_of_eq hlt hnext.symm, fun hk' => hmem (hlist k hk'), ?_⟩
    rw [hcontroller k (.inr hmem)]
    exact hfailed
  · intro k hk
    exact hback k (h.back k (hnext ▸ hk))

theorem calm {r : Rpc.State} (hr : r.Coherent) (hc : Calm s.rpc r) :
    { s with rpc := r }.Owned maxConnectNum := by
  refine h.ofEnv hr hc.next (fun k hk => hc.timeoutList ▸ hk) (fun k hk _ => hc.timeoutList ▸ hk)
    ?_ ?_ ?_ ?_ hc.back
  · intro k
    rcases hc.tasks k with ht | ⟨-, ht⟩ <;> rw [ht]
    rfl
  · intro k _
    rcases hc.tasks k with ht | ⟨-, ht⟩ <;> rw [ht]
  · intro k _ hplace
    rcases hc.tasks k with ht | ⟨hpushing, -⟩
    · rw [ht]
      exact hplace
    · rw [hplace] at hpushing
      cases hpushing
  · intro k x _ _ hcarries
    rcases hc.tasks k with ht | ⟨hpushing, -⟩
    · rw [ht]
      exact hcarries
    · rcases hcarries with hplace | ⟨⟨w, hplace⟩, -⟩ <;>
      · rw [hplace] at hpushing
        cases hpushing

theorem timeout {r : Rpc.State} {k : ℕ} (hr : r.Coherent)
    (hs : s.rpc.timeout k = some r) (hk : s.inTime (.env (.timeout k)) = true) :
    { s with rpc := r }.Owned maxConnectNum := by
  have hset := h.coherent.calls.settles_of_timeout hs
  have hne : ∀ j, (s.pool.takes j = .running ∨ ∃ x, s.pool.takes j = .delivered x) → j ≠ k := by
    rintro j hj rfl
    rcases hj with hj | ⟨x, hj⟩ <;>
    · simp only [inTime, hj] at hk
      cases hk
  have hlist : k ∉ r.timeoutList := by
    rw [hset.timeoutList]
    exact h.coherent.calls.nodup.not_mem_erase
  have hk : k ∈ s.rpc.timeoutList := by
    unfold Rpc.State.timeout at hs
    split at hs
    · rename_i hk
      exact hk.1
    · cases hs
  refine h.ofEnv hr hset.frame.1 (fun j hj => ?_) (fun j hj hj' => ?_) hset.timed ?_ ?_ ?_ ?_
  · rw [hset.timeoutList] at hj
    exact mem_of_mem_erase hj
  · exact (hset.mem_iff (hne j hj')).2 hj
  · intro j hj
    have hjk : j ≠ k := by
      rintro rfl
      exact hj.elim hlist fun hj => hj hk
    rw [tasks_of_timeout hs hjk]
  · intro j hj hplace
    rw [tasks_of_timeout hs (hne j (.inl hj))]
    exact hplace
  · intro j x hj _ hcarries
    rw [tasks_of_timeout hs (hne j (.inr ⟨x, hj⟩))]
    exact hcarries
  · intro j hj
    rw [hset.awaits_iff, hset.frame.2.2.2.2.2.2]
    exact hj

theorem take {r : Rpc.State} {co : ℕ} {contended : Bool}
    (hr : r.Coherent) (hs : s.rpc.innerCallMethod co 10000 contended = some r) :
    { s with rpc := r }.Owned maxConnectNum := by
  obtain ⟨st, t, hi⟩ := issued_of_innerCallMethod hs
  have hlist : r.timeoutList = s.rpc.timeoutList ++ [s.rpc.next] := by
    rw [hi.timeoutList, if_neg (by decide)]
  have hnew : s.pool.takes s.rpc.next = .unstarted := by
    by_contra hne
    exact lt_irrefl _ (h.started _ hne)
  have hold : ∀ k, s.pool.takes k ≠ .unstarted → k ≠ s.rpc.next := by
    rintro k hk rfl
    exact hk hnew
  have htasks : ∀ k, k ≠ s.rpc.next → r.tasks k = s.rpc.tasks k := fun k hk => hi.tasks_of_ne hk
  have hmem : ∀ k, k ≠ s.rpc.next → (k ∈ r.timeoutList ↔ k ∈ s.rpc.timeoutList) :=
    fun k hk => hi.mem_iff hk
  refine ⟨hr, h.accounted, h.manned, ?_, ?_, ?_, ?_, ?_, ?_, ?_, ?_⟩
  · intro k hk
    by_cases hk' : k = s.rpc.next
    · rw [hk', hi.tasks_next]
      exact hi.timed_iff.2 (by decide)
    · rw [htasks k hk']
      exact h.timed k (by have := hi.next ▸ hk; omega)
  · intro k hk
    by_cases hk' : k = s.rpc.next
    · rw [hk']
      exact controller_of_innerCallMethod hs
    · rw [htasks k hk']
      exact h.waits k ((hmem k hk').1 hk)
  · intro k hk
    rw [hi.next]
    exact lt_succ_of_lt (h.started k hk)
  · intro k hk
    have hne := hold k (by rw [hk]; exact nofun)
    rw [htasks k hne, hmem k hne]
    exact h.running k hk
  · intro k x hk hk'
    have hne := hold k (by rw [hk]; exact nofun)
    rw [htasks k hne]
    exact h.sent k x hk ((hmem k hne).1 hk')
  · intro p hp
    refine (h.owner p hp).imp_left fun hmem' => ?_
    rw [hlist]
    exact mem_append_left _ hmem'
  · intro k x hk
    obtain ⟨hlt, hnot, hfailed⟩ := h.got k x hk
    have hne : k ≠ s.rpc.next := Nat.ne_of_lt hlt
    rw [htasks k hne, hmem k hne, hi.next]
    exact ⟨lt_succ_of_lt hlt, hnot, hfailed⟩
  · intro k hk
    by_cases hk' : k = s.rpc.next
    · rw [hk']
      exact .inl hi.awaits_next
    · rw [hi.awaits_iff hk', hi.returned]
      exact h.back k (by have := hi.next ▸ hk; omega)

theorem move {r : Rpc.State} {k : ℕ} {p : Rpc.Place} (hr : r.Coherent)
    (hplace : (s.rpc.tasks k).place = .requestQueue) (hs : r = s.rpc.move k p) :
    { s with rpc := r }.Owned maxConnectNum := by
  have htasks : ∀ j, j ≠ k → r.tasks j = s.rpc.tasks j := by
    intro j hj
    rw [hs, tasks_move, if_neg hj]
  have hconst : ∀ j, (r.tasks j).timed = (s.rpc.tasks j).timed ∧
      (r.tasks j).controller = (s.rpc.tasks j).controller ∧
      (r.tasks j).co = (s.rpc.tasks j).co := by
    intro j
    rw [hs, tasks_move]
    exact ⟨rfl, rfl, rfl⟩
  subst hs
  refine h.ofEnv hr rfl (fun _ => id) (fun _ hj _ => hj) (fun j => (hconst j).1)
    (fun j _ => (hconst j).2.1) ?_ ?_ ?_
  · intro j _ hserving
    have hj : j ≠ k := by
      rintro rfl
      rw [hplace] at hserving
      cases hserving
    rw [htasks j hj]
    exact hserving
  · intro j x _ _ hcarries
    have hj : j ≠ k := by
      rintro rfl
      rcases hcarries with hserving | ⟨⟨w, hserving⟩, -⟩ <;>
      · rw [hplace] at hserving
        cases hserving
    rw [htasks j hj]
    exact hcarries
  · intro j hj
    rw [awaits, (hconst j).2.2]
    exact hj

theorem accept {k : ℕ}
    (hs : s.step d maxConnectNum (.accept k) = some s') : s'.Owned maxConnectNum := by
  obtain ⟨r, hr, hs⟩ := bind_eq_some_iff.1 hs
  have hcoherent := h.coherent.step hr
  simp only [Rpc.State.step, Rpc.State.clientStep, Rpc.State.takeRequest] at hr
  split at hr
  · rename_i hplace
    have hlt : k < s.rpc.next := h.coherent.kinds.lt_next (by rw [hplace]; rintro ⟨⟩)
    split at hr
    · -- it expired
      cases hr
      rw [if_neg (by rw [tasks_move, if_pos rfl]; rintro ⟨⟩)] at hs
      cases hs
      exact h.move hcoherent hplace rfl
    · rename_i hexp
      cases hr
      have hserving : ((s.rpc.move k .serving).tasks k).place = .serving := by
        rw [tasks_move, if_pos rfl]
      rw [if_pos hserving] at hs
      obtain ⟨p, hp, rfl⟩ := map_eq_some_iff.1 hs
      refine (h.move hcoherent hplace rfl).ofPool hp ?_ fun _ _ _ => id
      -- a call whose node is gone expired
      rintro j ⟨rfl⟩
      refine ⟨hserving, ?_⟩
      by_contra hnot
      have htimed := h.timed k hlt
      refine hexp ⟨by simpa [RpcClientTask.timed] using htimed, ?_⟩
      exact h.coherent.calls.expired k (.inl (by rw [hplace]; rfl)) htimed hnot
  · cases hr

theorem serve {r : Rpc.State} {k : ℕ} {c : Controller ErrorText}
    (hr : s.rpc.step (.client (.serve k c)) = some r) (hrunning : s.pool.takes k ≠ .running)
    (hc : ∀ x, s.pool.takes k = .delivered x → c.failed = false) :
    { s with rpc := r }.Owned maxConnectNum := by
  have hcoherent := h.coherent.step hr
  simp only [Rpc.State.step, Rpc.State.clientStep, Rpc.State.serve] at hr
  split at hr
  · rename_i hplace
    have hlt : k < s.rpc.next := h.coherent.kinds.lt_next (by rw [hplace]; rintro ⟨⟩)
    cases hr
    have htasks : ∀ j, (s.rpc.modify k fun t =>
        if t.timed then { t with place := .waitResume 0 (.response k), controller_1 := some c }
        else { t with place := .waitResume 0 (.response k), controller := c }).tasks j =
        if j = k then { s.rpc.tasks k with
          place := .waitResume 0 (.response k)
          controller_1 := some c } else s.rpc.tasks j := by
      intro j
      rw [tasks_modify, if_pos (h.timed k hlt)]
    refine h.ofEnv hcoherent rfl (fun _ => id) (fun _ hj _ => hj) ?_ ?_ ?_ ?_ ?_
    · intro j
      rw [htasks]
      split
      · rename_i hj
        rw [hj]
        rfl
      · rfl
    · intro j _
      rw [htasks]
      split
      · rename_i hj
        rw [hj]
      · rfl
    · intro j hj hserving
      have hjk : j ≠ k := by
        rintro rfl
        exact hrunning hj
      rw [htasks, if_neg hjk]
      exact hserving
    · intro j x hj _ hcarries
      rw [htasks]
      split
      · rename_i hjk
        exact .inr ⟨⟨_, rfl⟩, c, rfl, hc x (hjk ▸ hj)⟩
      · exact hcarries
    · intro j hj
      rw [awaits, htasks]
      split
      · rename_i hjk
        rw [hjk] at hj ⊢
        exact hj
      · exact hj
  · cases hr

theorem merge_spec {r : Rpc.State} {k : ℕ} (hr : s.rpc.resumeCall k = some r) :
    (k ∈ s.rpc.timeoutList ∧ (r.tasks k).controller.failed = false ∧
      ∃ x, s.pool.takes k = .delivered x ∧ s.merge k = update s.response k (some x)) ∨
    s.merge k = s.response ∧ ∀ x, s.pool.takes k = .delivered x → k ∉ s.rpc.timeoutList := by
  have hcalls := h.coherent.calls
  obtain ⟨err, w, hplace, -⟩ := resumeCall_spec hr
  have hpending : s.rpc.pending k := .inl (by rw [hplace]; rfl)
  by_cases hk : k ∈ s.rpc.timeoutList ∧ ∃ x, s.pool.takes k = .delivered x
  · obtain ⟨hmem, x, hx⟩ := hk
    -- the message reports no failure, and its node is found
    have hcarries : err = 0 ∧ ∃ c, (s.rpc.tasks k).controller_1 = some c ∧ c.failed = false := by
      rcases h.sent k x hx hmem with hserving | ⟨⟨w', hw'⟩, hc⟩
      · rw [hplace] at hserving
        cases hserving
      · rw [hplace] at hw'
        cases hw'
        exact ⟨rfl, hc⟩
    obtain ⟨rfl, c, hc, hfailed⟩ := hcarries
    have hnode : ∃ n, s.rpc.getNode (s.rpc.tasks k).pid (s.rpc.tasks k).co = some n ∧
        (s.rpc.tasks n).expireTime = (s.rpc.tasks k).expireTime := by
      by_contra hnone
      refine hcalls.not_mem_of_getNode (fun n hn hexp => hnone ⟨n, hn, hexp⟩) hmem
    obtain ⟨n, hn, hexp⟩ := hnode
    obtain ⟨hmem', hco⟩ := getNode_spec hn
    obtain rfl := hcalls.call_of_node hpending hmem' hco hexp
    refine .inl ⟨hmem, ?_, x, hx, ?_⟩
    · have hwaits := h.waits n hmem
      rcases (tasks_of_resumeCall hcalls hr).2 with hsame | ⟨-, err, w', hw', hsettle⟩
      · rw [hsame]
        exact hwaits
      · rw [hplace] at hw'
        cases hw'
        rw [hsettle]
        simpa [settle, hc, hfailed] using hwaits
    · simp [merge, hplace, hn, hc, hfailed, hx]
  · refine .inr ⟨?_, fun x hx hmem => hk ⟨hmem, x, hx⟩⟩
    unfold merge
    split
    · split
      · rename_i n hn
        split
        · rename_i hexp
          obtain ⟨hmem, hco⟩ := getNode_spec hn
          obtain rfl := hcalls.call_of_node hpending hmem hco hexp.1
          split
          · rename_i x hx
            exact absurd ⟨hmem, x, hx⟩ hk
          · rfl
        · rfl
      · rfl
    · rfl

theorem resume {r : Rpc.State} {k : ℕ} (hcoherent : r.Coherent) (hr : s.rpc.resumeCall k = some r) :
    { s with rpc := r, response := s.merge k }.Owned maxConnectNum := by
  have hcalls := h.coherent.calls
  have hset := hcalls.settles_of_resumeCall hr
  obtain ⟨htasks, hcontroller⟩ := tasks_of_resumeCall hcalls hr
  obtain ⟨err, w, hplace, -⟩ := resumeCall_spec hr
  have hlist : k ∉ r.timeoutList := by
    rw [hset.timeoutList]
    exact hcalls.nodup.not_mem_erase
  have hne : ∀ j, j ∈ r.timeoutList → j ≠ k := by
    rintro j hj rfl
    exact hlist hj
  refine ⟨hcoherent, h.accounted, h.manned, ?_, ?_, ?_, ?_, ?_, ?_, ?_, ?_⟩
  · intro j hj
    rw [hset.timed]
    exact h.timed j (hset.frame.1 ▸ hj)
  · intro j hj
    rw [htasks j (hne j hj)]
    exact h.waits j ((hset.mem_iff (hne j hj)).1 hj)
  · intro j hj
    exact lt_of_lt_of_eq (h.started j hj) hset.frame.1.symm
  · intro j hj
    obtain ⟨hserving, hmem⟩ := h.running j hj
    have hjk : j ≠ k := by
      rintro rfl
      rw [hplace] at hserving
      cases hserving
    rw [htasks j hjk, hset.mem_iff hjk]
    exact ⟨hserving, hmem⟩
  · intro j x hj hmem
    rw [htasks j (hne j hmem)]
    exact h.sent j x hj ((hset.mem_iff (hne j hmem)).1 hmem)
  · intro p hp
    have hp' := h.manned.delivered p hp
    rcases h.merge_spec hr with ⟨hmem, -, x, hx, hmerge⟩ | ⟨hmerge, hnot⟩
    · by_cases hpk : p.2 = k
      · -- the connection gets to its caller
        rw [hpk, hx] at hp'
        cases hp'
        refine .inr (.inl ?_)
        simp only [hmerge, hpk, update_self]
      · refine (h.owner p hp).imp (hset.mem_iff hpk).2 (Or.imp_left fun hp'' => ?_)
        simpa only [hmerge, update_of_ne hpk] using hp''
    · refine (h.owner p hp).imp (fun hmem => ?_) (Or.imp_left fun hp'' => ?_)
      · refine (hset.mem_iff ?_).2 hmem
        rintro rfl
        exact hnot _ hp' hmem
      · simpa only [hmerge] using hp''
  · intro j x hj
    have hold : s.response j = some x → j < r.next ∧ j ∉ r.timeoutList ∧
        (r.tasks j).controller.failed = false := by
      intro hj'
      obtain ⟨hlt, hnot, hfailed⟩ := h.got j x hj'
      refine ⟨lt_of_lt_of_eq hlt hset.frame.1.symm, fun hmem => hnot ?_, ?_⟩
      · exact (hset.mem_iff (hne j hmem)).1 hmem
      · by_cases hjk : j = k
        · subst hjk
          rcases hcontroller with hsame | ⟨hmem, -⟩
          · rw [hsame]
            exact hfailed
          · exact absurd hmem hnot
        · rw [htasks j hjk]
          exact hfailed
    rcases h.merge_spec hr with ⟨hmem, hfailed, y, -, hmerge⟩ | ⟨hmerge, -⟩
    · by_cases hjk : j = k
      · subst hjk
        refine ⟨?_, hlist, hfailed⟩
        exact lt_of_lt_of_eq (hcalls.awaits_lt (hcalls.node j hmem).2) hset.frame.1.symm
      · refine hold ?_
        simpa only [hmerge, update_of_ne hjk] using hj
    · exact hold (by simpa only [hmerge] using hj)
  · intro j hj
    rw [hset.awaits_iff, hset.frame.2.2.2.2.2.2]
    exact h.back j (hset.frame.1 ▸ hj)

theorem put {k : ℕ} {error : Bool}
    (hs : s.step d maxConnectNum (.put k error) = some s') : s'.Owned maxConnectNum := by
  simp only [System.step] at hs
  split at hs
  · rename_i x hx
    split at hs
    · cases hs
      refine { h with owner := fun p hp => ?_, got := fun j y hj => ?_ }
      · rcases h.owner p hp with hmem | hp' | ⟨e, he⟩
        · exact .inl hmem
        · by_cases hpk : p.2 = k
          · rw [hpk, hx] at hp'
            cases hp'
            exact .inr (.inr ⟨error, mem_append_right _ mem_cons_self⟩)
          · refine .inr (.inl ?_)
            simpa only [update_of_ne hpk] using hp'
        · exact .inr (.inr ⟨e, mem_append_left _ he⟩)
      · by_cases hjk : j = k
        · rw [hjk] at hj
          simp only [update_self] at hj
          cases hj
        · simp only [update_of_ne hjk] at hj
          exact h.got j y hj
    · cases hs
  · cases hs

theorem step {a : SystemAction} (ha : s.inTime a = true)
    (hs : s.step d maxConnectNum a = some s') : s'.Owned maxConnectNum := by
  cases a with
  | take co contended =>
    obtain ⟨r, hr, rfl⟩ := map_eq_some_iff.1 hs
    exact h.take (h.coherent.step hr) hr
  | accept k => exact h.accept hs
  | pool a =>
    simp only [System.step] at hs
    split at hs
    · rename_i hint
      obtain ⟨p, hp, rfl⟩ := map_eq_some_iff.1 hs
      refine h.ofPool hp ?_ fun _ _ _ => id
      rintro k rfl
      cases hint
    · cases hs
  | serve k =>
    simp only [System.step] at hs
    split at hs
    · rename_i x hx
      obtain ⟨r, hr, rfl⟩ := map_eq_some_iff.1 hs
      exact h.serve hr (by rw [hx]; exact nofun) fun _ _ => rfl
    · rename_i text hx
      obtain ⟨r, hr, rfl⟩ := map_eq_some_iff.1 hs
      exact h.serve hr (by rw [hx]; exact nofun) fun y hy => by rw [hx] at hy; cases hy
    · cases hs
  | resume k =>
    obtain ⟨r, hr, rfl⟩ := map_eq_some_iff.1 hs
    exact h.resume (h.coherent.step hr) hr
  | env a =>
    simp only [System.step] at hs
    split at hs
    · rename_i hshared
      obtain ⟨r, hr, rfl⟩ := map_eq_some_iff.1 hs
      rcases calm_of_shared h.coherent.calls hshared hr with ⟨k, rfl⟩ | hcalm
      · exact h.timeout (h.coherent.step hr) hr ha
      · exact h.calm (h.coherent.step hr) hcalm
    · cases hs
  | put k error => exact h.put hs
  | servePut x error =>
    simp only [System.step] at hs
    split at hs
    · obtain ⟨p, hp, rfl⟩ := map_eq_some_iff.1 hs
      refine h.ofPool hp (fun k hk => nomatch hk) fun q hq hq' => ?_
      -- the request that was handled is one of another connection
      have hne := ne_of_put h.manned h.accounted (move_of_step h.accounted hp) hq hq'
      rintro ⟨e, he⟩
      refine ⟨e, (mem_erase_of_ne fun heq => hne ?_).2 he⟩
      exact congrArg Prod.fst heq
    · cases hs

end

end Owned

end System

end Corpc.Pool
