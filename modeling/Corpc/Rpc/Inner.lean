/-
# The messages of an inner call

`InnerRpcChannel::CallMethod`, `InnerRpcServer::requestQueueRoutine` and `requestRoutine` in
`corpc_inner_rpc.cpp` on top of the calls of `Rpc.State`: the messages and the controllers
that the caller, the service and the routines share.

A call with a time-out may return while the service still runs, so the service gets copies,
`request_1`, `response_1` and `controller_1`, and `resumeRoutine` takes over what they say while
the caller's node is in `timeoutList_`.
-/

import Corpc.Rpc.Requests
import Corpc.Wire.Protobuf

namespace Corpc.Rpc

open Corpc.Basis Wire Function Option

variable {δ μ : Type}

/-- The messages of an inner call: the caller's, and the copies for the service of a call with
a time-out. -/
structure Messages (μ : Type) where
  request : μ
  response : μ
  request_1 : Option μ
  response_1 : Option μ
  deriving DecidableEq, Repr

/-- `response->MergeFrom(*response_1)`. -/
def Messages.merge (pb : Protobuf δ μ) (m : Messages μ) : Messages μ :=
  { m with response := match m.response_1 with
    | some response_1 => pb.mergeFrom m.response response_1
    | none => m.response }

/-- `resumeRoutine` at a node: `MergeFrom`, unless the call failed. -/
def Messages.settle (pb : Protobuf δ μ) (err : ℕ) (t : RpcClientTask) (m : Messages μ) :
    Messages μ :=
  if err ≠ 0 then m
  else
    match t.controller_1 with
    | some c => if c.failed then m else m.merge pb
    | none => m.merge pb

theorem settle_cases (pb : Protobuf δ μ) (err : ℕ) (t : RpcClientTask) (m : Messages μ) :
    (State.settle err t).controller.failed = true ∧ m.settle pb err t = m ∨
      State.settle err t = t ∧ m.settle pb err t = m.merge pb := by
  unfold State.settle Messages.settle
  split_ifs with herr
  · exact .inl ⟨rfl, rfl⟩
  · rcases hc : t.controller_1 with _ | c
    · exact .inr ⟨rfl, rfl⟩
    · dsimp only
      split_ifs with hfailed
      · exact .inl ⟨hfailed, rfl⟩
      · exact .inr ⟨rfl, rfl⟩

theorem Messages.response_1_settle (pb : Protobuf δ μ) (err : ℕ) (t : RpcClientTask)
    (m : Messages μ) : (m.settle pb err t).response_1 = m.response_1 := by
  rcases settle_cases pb err t m with ⟨-, h⟩ | ⟨-, h⟩
  · rw [h]
  · rw [h]
    rfl

/-- The node that `resumeRoutine` finds for the message of a call, with the error of the
message. -/
def State.found (s : State) (k : ℕ) : Option (ℕ × ℕ) :=
  match (s.tasks k).place with
  | .waitResume err _ =>
    if (s.tasks k).expireTime ≠ 0 then
      match s.getNode (s.tasks k).pid (s.tasks k).co with
      | some n => if (s.tasks n).expireTime = (s.tasks k).expireTime then some (err, n) else none
      | none => none
    else none
  | _ => none

def RpcClientTask.given (t : RpcClientTask) : Controller ErrorText :=
  if t.timed then t.controller_1.getD .reset else t.controller

theorem RpcClientTask.given_of_timed {t : RpcClientTask} (h : t.timed = true) :
    t.given = t.controller_1.getD .reset := if_pos h

structure Inner (μ : Type) where
  rpc : State
  messages : ℕ → Messages μ

/-- What the callers, the routines, the event loop and the services do. -/
inductive InnerAction (μ : Type) where
  | tick (ms : ℕ)
  | startCoroutine (pid co : ℕ)
  | endCoroutine (co : ℕ)
  | callMethod (co timeout : ℕ) (contended : Bool) (controller : Controller ErrorText)
      (request response : μ)
  | mutexPost
  | resumeMutex (co : ℕ)
  | resumeCo (co : ℕ) (again : Bool)
  /-- `requestQueueRoutine` takes a request -/
  | takeRequest (call : ℕ)
  | handler (call : ℕ) (controller : Controller ErrorText) (request response : μ)
  | serve (call : ℕ)
  | resumeRoutine (call : ℕ)
  | timeoutRoutine (call : ℕ)
  deriving DecidableEq, Repr

namespace Inner

def init (messages : ℕ → Messages μ) : Inner μ := ⟨.init fun _ => 0, messages⟩

variable [DecidableEq δ] (pb : Protobuf δ μ) (s : Inner μ)

/-- `InnerRpcChannel::CallMethod` up to the first suspension. -/
def callMethod (co timeout : ℕ) (contended : Bool) (controller : Controller ErrorText)
    (request response : μ) : Option (Inner μ) :=
  (s.rpc.innerCallMethod co timeout contended).map fun rpc =>
    { rpc := rpc.modify s.rpc.next fun t => { t with controller }
      messages := update s.messages s.rpc.next
        { request, response
          request_1 := if timeout = 0 then none else some request
          response_1 := if timeout = 0 then none else some (pb.new (pb.descriptor response)) } }

def handle (k : ℕ) (controller : Controller ErrorText) (request response : μ) :
    Option (Inner μ) :=
  let m := s.messages k
  if (s.rpc.tasks k).place = .serving then
    if (s.rpc.tasks k).timed then
      if m.response_1.map pb.descriptor = some (pb.descriptor response) then
        some
          { rpc := s.rpc.modify k fun t => { t with controller_1 := some controller }
            messages := update s.messages k
              { m with request_1 := some request, response_1 := some response } }
      else none
    else if pb.descriptor m.response = pb.descriptor response then
      some
        { rpc := s.rpc.modify k fun t => { t with controller }
          messages := update s.messages k { m with request, response } }
    else none
  else none

/-- `resumeRoutine` at the message of a call. -/
def resumeRoutine (k : ℕ) : Option (Inner μ) :=
  (s.rpc.resumeCall k).map fun rpc =>
    { rpc
      messages := match s.rpc.found k with
        | some (err, n) =>
          update s.messages n ((s.messages n).settle pb err (s.rpc.tasks n))
        | none => s.messages }

def lift (rpc : Option State) : Option (Inner μ) := rpc.map fun rpc => { s with rpc }

def step (s : Inner μ) : InnerAction μ → Option (Inner μ)
  | .tick ms => s.lift (s.rpc.envStep (.tick ms))
  | .startCoroutine pid co => s.lift (s.rpc.envStep (.startCoroutine pid co))
  | .endCoroutine co => s.lift (s.rpc.envStep (.endCoroutine co))
  | .callMethod co timeout contended controller request response =>
    s.callMethod pb co timeout contended controller request response
  | .mutexPost => s.lift (s.rpc.envStep .mutexPost)
  | .resumeMutex co => s.lift (s.rpc.envStep (.resumeMutex co))
  | .resumeCo co again => s.lift (s.rpc.envStep (.resumeCo co again))
  | .takeRequest k => s.lift (s.rpc.clientStep (.takeRequest k))
  | .handler k controller request response => s.handle pb k controller request response
  | .serve k => s.lift (s.rpc.clientStep (.serve k (s.rpc.tasks k).given))
  | .resumeRoutine k => s.resumeRoutine pb k
  | .timeoutRoutine k => s.lift (s.rpc.envStep (.timeout k))

end Inner

/-- `resumeRoutine` or `timeoutRoutine`. -/
def InnerAction.settles : InnerAction μ → Bool
  | .resumeRoutine _ | .timeoutRoutine _ => true
  | _ => false

structure CallerObjects (μ : Type) where
  request : μ
  response : μ
  controller : Controller ErrorText
  deriving DecidableEq, Repr

def State.setController (s : State) (k : ℕ) (c : Controller ErrorText) : State :=
  s.modify k fun t => { t with controller := c }

namespace Inner

variable (s : Inner μ)

def caller (k : ℕ) : CallerObjects μ :=
  ⟨(s.messages k).request, (s.messages k).response, (s.rpc.tasks k).controller⟩

def overwrite (k : ℕ) (v : CallerObjects μ) : Inner μ :=
  { rpc := s.rpc.setController k v.controller
    messages := update s.messages k
      { s.messages k with request := v.request, response := v.response } }

end Inner

namespace State

variable {s : State} {j k : ℕ} {c : Controller ErrorText}

@[simp]
theorem env_setController : (s.setController k c).toEnvironment = s.toEnvironment := rfl

theorem tasks_setController : (s.setController k c).tasks j =
    { s.tasks j with controller := if j = k then c else (s.tasks j).controller } := by
  rw [setController, tasks_modify]
  split_ifs with h
  · rw [h]
  · rfl

theorem modify_setController {g : RpcClientTask → RpcClientTask}
    (hg : j = k → g { s.tasks k with controller := c } = { g (s.tasks k) with controller := c }) :
    (s.setController k c).modify j g = (s.modify j g).setController k c := by
  unfold setController modify
  by_cases hjk : j = k
  · subst hjk
    simp [hg rfl]
  · simp only [update_of_ne hjk, update_of_ne (Ne.symm hjk)]
    rw [update_comm hjk]

theorem move_setController (p : Place) :
    (s.setController k c).move j p = (s.move j p).setController k c :=
  modify_setController fun _ => rfl

theorem getNode_setController (pid co : ℕ) :
    (s.setController k c).getNode pid co = s.getNode pid co := by
  unfold getNode
  simp only [tasks_setController]
  rfl

theorem found_setController : (s.setController k c).found j = s.found j := by
  unfold found
  simp only [tasks_setController, getNode_setController]

theorem mem_of_found {err n : ℕ} (h : s.found j = some (err, n)) : n ∈ s.timeoutList := by
  unfold found at h
  split at h
  · split_ifs at h with hexp
    split at h
    · rename_i m hm
      split_ifs at h
      cases h
      exact List.mem_of_find?_eq_some hm
    · cases h
  · cases h

theorem startCoroutine_setController {pid co : ℕ} :
    (s.setController k c).startCoroutine pid co =
      (s.startCoroutine pid co).map (·.setController k c) := by
  unfold startCoroutine
  rw [env_setController]
  split_ifs <;> rfl

theorem endCoroutine_setController {co : ℕ} :
    (s.setController k c).endCoroutine co = (s.endCoroutine co).map (·.setController k c) := by
  unfold endCoroutine
  rw [env_setController]
  split_ifs <;> rfl

theorem mutexPost_setController :
    (s.setController k c).mutexPost = s.mutexPost.map (·.setController k c) := by
  unfold mutexPost
  rw [env_setController]
  cases s.mutexWaiters <;> rfl

theorem resumeMutex_setController {co : ℕ} :
    (s.setController k c).resumeMutex co = (s.resumeMutex co).map (·.setController k c) := by
  unfold resumeMutex
  rw [env_setController]
  split_ifs <;> rfl

theorem innerCallMethod_setController {co timeout : ℕ} {contended : Bool} (hk : k < s.next) :
    (s.setController k c).innerCallMethod co timeout contended =
      (s.innerCallMethod co timeout contended).map (·.setController k c) := by
  have hissue : ∀ place st, (s.setController k c).issue co timeout none place st =
      (s.issue co timeout none place st).setController k c := by
    intro place st
    unfold issue setController modify
    simp only [update_of_ne hk.ne]
    rw [update_comm hk.ne]
    rfl
  unfold innerCallMethod
  rw [hissue, hissue, env_setController]
  split_ifs <;> rfl

theorem continueCo_setController {co : ℕ} {again : Bool} :
    (s.setController k c).continueCo co again =
      (s.continueCo co again).map (·.setController k c) := by
  have hmove : ∀ j, ((s.setController k c).setCo co (.blocked j)).move j .requestQueue =
      ((s.setCo co (.blocked j)).move j .requestQueue).setController k c :=
    fun j => move_setController (s := s.setCo co (.blocked j)) .requestQueue
  unfold continueCo
  rw [env_setController]
  rcases hco : s.cos co with _ | _ | j | j
  · rfl
  · rfl
  · dsimp only
    rw [hmove]
    split_ifs <;> rfl
  · rfl

theorem resumeCo_setController {co : ℕ} {again : Bool} :
    (s.setController k c).resumeCo co again = (s.resumeCo co again).map (·.setController k c) := by
  unfold resumeCo
  rw [env_setController]
  split_ifs
  · exact continueCo_setController (s := { s with active := s.active.eraseP (·.1 = co) })
  · rfl

theorem resumeCall_setController (hk : k ∉ s.timeoutList) :
    (s.setController k c).resumeCall j = (s.resumeCall j).map (·.setController k c) := by
  unfold resumeCall
  simp only [move_setController, getNode_setController, tasks_setController]
  rcases hp : (s.tasks j).place with _ | _ | _ | _ | _ | _ | _ | _ | ⟨err, w⟩ | _ | _ <;> try rfl
  dsimp only
  split_ifs with hexp
  · rcases hn : (s.move j .resumed).getNode ((s.move j .resumed).tasks j).pid
      ((s.move j .resumed).tasks j).co with _ | n
    · rfl
    · have hne : n ≠ k := by
        rintro rfl
        exact hk (List.mem_of_find?_eq_some hn)
      dsimp only
      rw [modify_setController fun h => absurd h hne]
      split_ifs <;> rfl
  · rfl

theorem timeout_setController (hk : k ∉ s.timeoutList) :
    (s.setController k c).timeout j = (s.timeout j).map (·.setController k c) := by
  unfold timeout
  simp only [tasks_setController, env_setController]
  split_ifs with hj
  · have hne : j ≠ k := by
      rintro rfl
      exact hk hj.1
    rw [modify_setController fun h => absurd h hne]
    rfl
  · rfl

theorem takeRequest_setController :
    (s.setController k c).takeRequest j = (s.takeRequest j).map (·.setController k c) := by
  unfold takeRequest
  simp only [tasks_setController, env_setController, move_setController]
  split_ifs <;> rfl

theorem serve_setController (hk : (s.tasks k).timed = true) {d : Controller ErrorText} :
    (s.setController k c).serve j d = (s.serve j d).map (·.setController k c) := by
  unfold serve
  rw [modify_setController]
  · simp only [tasks_setController]
    split_ifs <;> rfl
  · rintro -
    have hk' : { s.tasks k with controller := c }.timed = true := hk
    rw [if_pos hk, if_pos hk']

end State

namespace Inner

variable [DecidableEq δ] {pb : Protobuf δ μ} {s s' : Inner μ} {k : ℕ} {v : CallerObjects μ}

theorem lift_overwrite {f : State → Option State} (hf : f (s.rpc.setController k v.controller) =
      (f s.rpc).map (·.setController k v.controller)) :
    (s.overwrite k v).lift (f (s.overwrite k v).rpc) =
      (s.lift (f s.rpc)).map (·.overwrite k v) := by
  unfold lift
  rw [show (s.overwrite k v).rpc = s.rpc.setController k v.controller from rfl, hf, map_map,
    map_map]
  rfl

omit [DecidableEq δ] in
theorem callMethod_overwrite {co timeout : ℕ} {contended : Bool}
    {controller : Controller ErrorText} {request response : μ} (hk : k < s.rpc.next) :
    (s.overwrite k v).callMethod pb co timeout contended controller request response =
      (s.callMethod pb co timeout contended controller request response).map (·.overwrite k v) := by
  unfold callMethod
  rw [show (s.overwrite k v).rpc = s.rpc.setController k v.controller from rfl,
    State.innerCallMethod_setController hk, map_map, map_map]
  refine congrArg (Option.map · _) (funext fun rpc => ?_)
  have hrpc : (rpc.setController k v.controller).modify s.rpc.next
      (fun t => { t with controller }) =
      (rpc.modify s.rpc.next fun t => { t with controller }).setController k v.controller :=
    State.modify_setController fun h => absurd h hk.ne'
  simp only [Function.comp_apply, State.env_setController, overwrite, hrpc, update_of_ne hk.ne]
  rw [update_comm hk.ne]

theorem handle_overwrite {j : ℕ} {controller : Controller ErrorText} {request response : μ}
    (hk : (s.rpc.tasks k).timed = true) :
    (s.overwrite k v).handle pb j controller request response =
      (s.handle pb j controller request response).map (·.overwrite k v) := by
  have htask : (s.overwrite k v).rpc.tasks j = { s.rpc.tasks j with
        controller := if j = k then v.controller else (s.rpc.tasks j).controller } :=
    State.tasks_setController
  have htimed : ((s.overwrite k v).rpc.tasks j).timed = (s.rpc.tasks j).timed := by
    rw [htask]
    rfl
  unfold handle
  rw [htimed, htask]
  by_cases hjk : j = k
  · -- the service has the copies
    subst hjk
    have hmsg : (s.overwrite j v).messages j =
        { s.messages j with request := v.request, response := v.response } :=
      update_self ..
    have hrpc : (s.overwrite j v).rpc.modify j
          (fun t => { t with controller_1 := some controller }) =
        (s.rpc.modify j fun t => { t with controller_1 := some controller }).setController j
          v.controller := State.modify_setController fun _ => rfl
    rw [hmsg]
    simp only [hk, if_true, hrpc]
    split_ifs
    · simp [overwrite]
    · rfl
    · rfl
  · have hmsg : (s.overwrite k v).messages j = s.messages j := update_of_ne hjk ..
    have hrpc : ∀ g, (s.overwrite k v).rpc.modify j g =
        (s.rpc.modify j g).setController k v.controller :=
      fun g => State.modify_setController fun h => absurd h hjk
    have hcomm : ∀ m, update (s.overwrite k v).messages j m = update (update s.messages j m) k
          { s.messages k with request := v.request, response := v.response } :=
      fun m => update_comm (Ne.symm hjk) ..
    rw [hmsg]
    simp only [hrpc, hcomm]
    split_ifs <;> simp [overwrite, update_of_ne (Ne.symm hjk)]

omit [DecidableEq δ] in
theorem resumeRoutine_overwrite {j : ℕ} (hk : k ∉ s.rpc.timeoutList) :
    (s.overwrite k v).resumeRoutine pb j = (s.resumeRoutine pb j).map (·.overwrite k v) := by
  have hrpc : (s.overwrite k v).rpc = s.rpc.setController k v.controller := rfl
  unfold resumeRoutine
  rw [hrpc, State.resumeCall_setController hk, State.found_setController, map_map, map_map]
  refine congrArg (Option.map · _) (funext fun rpc => ?_)
  rcases hf : s.rpc.found j with _ | ⟨err, n⟩
  · rfl
  · have hn : n ≠ k := by
      rintro rfl
      exact hk (State.mem_of_found hf)
    have hmsg : (s.overwrite k v).messages n = s.messages n := update_of_ne hn ..
    have htask : (s.rpc.setController k v.controller).tasks n = s.rpc.tasks n := by
      rw [State.tasks_setController, if_neg hn]
    simp only [Function.comp_apply, hmsg, htask]
    simp only [overwrite, update_of_ne (Ne.symm hn)]
    rw [update_comm (Ne.symm hn)]

section

variable (hlt : k < s.rpc.next) (ht : (s.rpc.tasks k).timed = true) {a : InnerAction μ}
  (ha : a.settles = true → k ∉ s.rpc.timeoutList)
include hlt ht ha

/-- **A step that has nothing to do with the caller's objects of a call with a time-out**: it
is not one of `resumeRoutine` or `timeoutRoutine`, or the node of the call is gone. -/
theorem step_overwrite :
    (s.overwrite k v).step pb a = (s.step pb a).map (·.overwrite k v) := by
  cases a with
  | tick ms => exact lift_overwrite (f := fun s => s.envStep (.tick ms)) rfl
  | startCoroutine pid co =>
    exact lift_overwrite (f := fun s => s.envStep (.startCoroutine pid co))
      State.startCoroutine_setController
  | endCoroutine co =>
    exact lift_overwrite (f := fun s => s.envStep (.endCoroutine co))
      State.endCoroutine_setController
  | callMethod co timeout contended controller request response => exact callMethod_overwrite hlt
  | mutexPost =>
    exact lift_overwrite (f := fun s => s.envStep .mutexPost) State.mutexPost_setController
  | resumeMutex co =>
    exact lift_overwrite (f := fun s => s.envStep (.resumeMutex co))
      State.resumeMutex_setController
  | resumeCo co again =>
    exact lift_overwrite (f := fun s => s.envStep (.resumeCo co again)) State.resumeCo_setController
  | takeRequest j =>
    exact lift_overwrite (f := fun s => s.clientStep (.takeRequest j))
      State.takeRequest_setController
  | handler j controller request response => exact handle_overwrite ht
  | serve j =>
    have hgiven : ((s.rpc.setController k v.controller).tasks j).given = (s.rpc.tasks j).given := by
      by_cases hjk : j = k
      · subst hjk
        have ht' : ((s.rpc.setController j v.controller).tasks j).timed = true := by
          rw [State.tasks_setController]
          exact ht
        rw [RpcClientTask.given_of_timed ht', RpcClientTask.given_of_timed ht,
          State.tasks_setController]
      · rw [State.tasks_setController, if_neg hjk]
    refine lift_overwrite (f := fun s => s.clientStep (.serve j (s.tasks j).given)) ?_
    rw [hgiven]
    exact State.serve_setController ht
  | resumeRoutine j => exact resumeRoutine_overwrite (ha rfl)
  | timeoutRoutine j =>
    exact lift_overwrite (f := fun s => s.envStep (.timeout j))
      (State.timeout_setController (ha rfl))

theorem caller_of_step (hs : s.step pb a = some s') : s'.caller k = s.caller k := by
  have hsame : s.overwrite k (s.caller k) = s := by
    have hrpc : s.rpc.setController k (s.rpc.tasks k).controller = s.rpc := by
      unfold State.setController State.modify
      rw [update_eq_self]
    have hmsg : update s.messages k (s.messages k) = s.messages :=
      update_eq_self ..
    unfold overwrite caller
    rw [hrpc, hmsg]
  have hcomm : (s.overwrite k (s.caller k)).step pb a =
      (s.step pb a).map (·.overwrite k (s.caller k)) := step_overwrite hlt ht ha
  rw [hsame, hs, map_some] at hcomm
  rw [some.inj hcomm]
  simp [caller, overwrite, State.tasks_setController]

end

end Inner

structure SameCalls (s s' : State) : Prop where
  env : s'.toEnvironment = s.toEnvironment
  client : s'.toClient = s.toClient
  tasks : ∀ j, (s'.tasks j).co = (s.tasks j).co ∧ (s'.tasks j).expireTime = (s.tasks j).expireTime ∧
    (s'.tasks j).place = (s.tasks j).place ∧ (s'.tasks j).request = (s.tasks j).request

namespace SameCalls

variable {s s' : State} {j : ℕ}

theorem refl (s : State) : SameCalls s s := ⟨rfl, rfl, fun _ => ⟨rfl, rfl, rfl, rfl⟩⟩

theorem of_modify (k : ℕ) (g : RpcClientTask → RpcClientTask)
    (hg : ∀ t, (g t).co = t.co ∧ (g t).expireTime = t.expireTime ∧ (g t).place = t.place ∧
      (g t).request = t.request) : SameCalls s (s.modify k g) := by
  refine ⟨rfl, rfl, fun j => ?_⟩
  rw [State.tasks_modify]
  split_ifs with hj
  · rw [hj]
    exact hg _
  · exact ⟨rfl, rfl, rfl, rfl⟩

theorem timed (h : SameCalls s s') (j : ℕ) : (s'.tasks j).timed = (s.tasks j).timed :=
  State.Calls.timed_congr (h.tasks j).2.1

theorem fired (h : SameCalls s s') (j : ℕ) : s'.fired j = s.fired j := by
  unfold State.fired
  rw [h.timed, h.env, (h.tasks j).2.2.1]

theorem awaits_iff (h : SameCalls s s') : s'.awaits j ↔ s.awaits j := by
  unfold State.awaits
  rw [h.env, (h.tasks j).1]

theorem pending_iff (h : SameCalls s s') : s'.pending j ↔ s.pending j := by
  unfold State.pending
  rw [(h.tasks j).2.2.1, (h.tasks j).2.2.2, h.client]

theorem calls (h : SameCalls s s') (hc : s.Calls) : s'.Calls := by
  have hkeeps : Keeps s s' := by
    refine ⟨by rw [h.env], by rw [h.env], fun j => ⟨(h.tasks j).1, (h.tasks j).2.1⟩,
      fun j => h.pending_iff.1, fun co k hk => by rwa [h.env] at hk,
      fun k hk _ => h.awaits_iff.2 hk, fun k hk => by rwa [h.env] at hk,
      by rw [h.env]; exact hc.nodup, fun k _ hk hk' => ?_⟩
    rw [h.env] at hk'
    exact absurd hk hk'
  refine hkeeps.calls hc (fun co k hk => ?_) (fun k hk => ?_) (fun k => ?_) fun co => ?_
  · rw [h.env] at hk
    rw [(h.tasks k).2.2.1]
    exact hc.parked co k hk
  · rw [(h.tasks k).2.2.1] at hk
    rw [h.env, (h.tasks k).1]
    exact hc.pushing k hk
  · obtain ⟨hunsent, hsent, hclosed, howned⟩ := hc.wired k
    obtain ⟨-, -, hplace, hreq⟩ := h.tasks k
    rw [← hplace] at hunsent hsent hclosed howned
    rw [← hreq] at hunsent hsent hclosed
    rw [← h.client] at hclosed
    exact ⟨hunsent, hsent, hclosed, howned⟩
  · have howed : s'.owed co = s.owed co := by
      unfold State.owed
      rw [h.env]
      simp only [h.fired]
    unfold State.tokens
    rw [howed, h.env]
    exact hc.tokens co

end SameCalls

namespace Inner

variable [DecidableEq δ] {pb : Protobuf δ μ} {s s' : Inner μ} {k : ℕ} {a : InnerAction μ}

theorem exists_rpc_of_step (hs : s.step pb a = some s') :
    ∃ rpc, (rpc = s.rpc ∨ ∃ act, s.rpc.step act = some rpc) ∧ SameCalls rpc s'.rpc := by
  have hlift : ∀ act : Action, s.lift (s.rpc.step act) = some s' →
      ∃ rpc, (rpc = s.rpc ∨ ∃ act, s.rpc.step act = some rpc) ∧ SameCalls rpc s'.rpc := by
    intro act h
    obtain ⟨rpc, hrpc, rfl⟩ := map_eq_some_iff.1 h
    exact ⟨rpc, .inr ⟨act, hrpc⟩, .refl rpc⟩
  cases a with
  | tick ms => exact hlift (.env (.tick ms)) hs
  | startCoroutine pid co => exact hlift (.env (.startCoroutine pid co)) hs
  | endCoroutine co => exact hlift (.env (.endCoroutine co)) hs
  | callMethod co timeout contended controller request response =>
    obtain ⟨rpc, hrpc, rfl⟩ := map_eq_some_iff.1 hs
    exact ⟨rpc, .inr ⟨.env (.innerCallMethod co timeout contended), hrpc⟩,
      .of_modify s.rpc.next (fun t => { t with controller }) fun _ => ⟨rfl, rfl, rfl, rfl⟩⟩
  | mutexPost => exact hlift (.env .mutexPost) hs
  | resumeMutex co => exact hlift (.env (.resumeMutex co)) hs
  | resumeCo co again => exact hlift (.env (.resumeCo co again)) hs
  | takeRequest j => exact hlift (.client (.takeRequest j)) hs
  | handler j controller request response =>
    refine ⟨s.rpc, .inl rfl, ?_⟩
    simp only [step, handle] at hs
    split_ifs at hs
    · cases hs
      exact .of_modify j (fun t => { t with controller_1 := some controller })
        fun _ => ⟨rfl, rfl, rfl, rfl⟩
    · cases hs
      exact .of_modify j (fun t => { t with controller }) fun _ => ⟨rfl, rfl, rfl, rfl⟩
  | serve j => exact hlift (.client (.serve j _)) hs
  | resumeRoutine j =>
    obtain ⟨rpc, hrpc, rfl⟩ := map_eq_some_iff.1 hs
    exact ⟨rpc, .inr ⟨.env (.resumeCall j), hrpc⟩, .refl rpc⟩
  | timeoutRoutine j => exact hlift (.env (.timeout j)) hs

structure Kept (s : Inner μ) : Prop where
  sound : s.rpc.toClient.Sound
  calls : s.rpc.Calls
  returned : ∀ k, s.rpc.returned k = true → k < s.rpc.next ∧ s.rpc.fired k = true

theorem Kept.step (h : s.Kept) (hs : s.step pb a = some s') : s'.Kept := by
  obtain ⟨rpc, hrpc, hsame⟩ := exists_rpc_of_step hs
  have hkept : rpc.toClient.Sound ∧ rpc.Calls ∧
      ∀ k, rpc.returned k = true → k < rpc.next ∧ rpc.fired k = true := by
    rcases hrpc with rfl | ⟨act, hact⟩
    · exact ⟨h.sound, h.calls, h.returned⟩
    · exact ⟨sound_step h.sound hact, h.calls.step h.sound hact,
        (State.returned_of_step h.calls h.returned hact).2⟩
  refine ⟨hsame.client ▸ hkept.1, hsame.calls hkept.2.1, fun k hr => ?_⟩
  rw [hsame.env] at hr ⊢
  rw [hsame.fired]
  exact hkept.2.2 k hr

omit [DecidableEq δ] in
theorem kept_init (messages : ℕ → Messages μ) : (init messages).Kept :=
  ⟨sound_init _, .init _, nofun⟩

end Inner

end Corpc.Rpc
