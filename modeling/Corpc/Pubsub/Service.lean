/-
# The publish/subscribe service

`PubsubService` and `SubscribeEnv` in `corpc_pubsub.cpp`.  A thread that first subscribes to a topic
sends its environment to the service, where `registerRoutine` enters it in `topicToEnvsMap_` and,
for a new topic, writes a byte to a pipe.  `subscribeRoutine` subscribes to the topics of the map
on one connection to Redis and waits for messages and bytes; at a byte it unsubscribes and begins
again.  A message goes to the queues of the environments, whose `deamonRoutine` calls the callbacks.

A step is what a routine does between two suspensions.  Redis sends a message to the connection if
that is subscribed to the topic; each command reads one reply, whatever it is.  `commandStr` has
the topics with blanks between them, as a format of `redisCommand`, whose reply nothing looks at:
what the connection is subscribed to afterwards is up to Redis.  If `proxy.take` returns null, the
process ends.
-/

import Mathlib.Data.List.Count
import Corpc.Queue.Notify

namespace Corpc.Pubsub

open Corpc.Basis Corpc.Queue Function List

variable {τ ε μ β : Type}

/-- Where `subscribeRoutine` is. -/
inductive Pc (τ : Type)
  | start
  /-- `commandStr` subscribes to these topics -/
  | command (topics : List τ)
  | poll
  | unsubscribe
  deriving DecidableEq

/-- `topics` are the keys of `topicToEnvsMap_`, `replies` has `none` for the answer to a command.
`read` and `handled` are history: the messages read with the environments they went to, and those
handled with the callbacks called. -/
structure State (τ ε μ β : Type) where
  topicCallbackMap : ε × τ → List β
  registers : List (ε × τ)
  topics : List τ
  topicToEnvsMap : τ → List ε
  pipe : Pipe
  pc : Pc τ
  redis : Bool
  subscribed : List τ
  replies : List (Option (τ × μ))
  queue : ε → List (τ × μ)
  read : List ((τ × μ) × List ε)
  handled : ε → List ((τ × μ) × List β)

/-- Before anything was subscribed to. -/
def State.init (pipe : Pipe) : State τ ε μ β :=
  ⟨fun _ => [], [], [], fun _ => [], pipe, .start, false, [], [], fun _ => [], [], fun _ => []⟩

/-- What the routines do, the threads that subscribe, and Redis. -/
inductive Action (τ ε μ β : Type)
  | addSubscribeCallback (env : ε) (topic : τ) (callback : β)
  /-- `registerRoutine` handles a `TopicRegisterMessage`. -/
  | register
  /-- `subscribeRoutine` builds its command. -/
  | build
  /-- `redisCommand(redis, commandStr.c_str())`, and the topics that Redis has accepted: none if
  the command fails, others if a topic has a blank. -/
  | subscribe (accepted : List τ)
  | publish (msg : τ × μ)
  /-- `redisGetReply` succeeds. -/
  | getReply
  /-- `redisGetReply` fails, and the connection is given back. -/
  | fail
  /-- `read(pReadFd, &buf[0], 16)`. -/
  | readPipe
  | unsubscribe
  /-- `deamonRoutine` handles a message. -/
  | handle (env : ε)

section Step

variable [DecidableEq τ] [DecidableEq ε]

/-- The loop over the environments of a topic. -/
def pushAll (msg : τ × μ) (envs : List ε) (queue : ε → List (τ × μ)) : ε → List (τ × μ) :=
  envs.foldl (fun queue env => update queue env (queue env ++ [msg])) queue

/-- One step of a routine. -/
def State.step (s : State τ ε μ β) : Action τ ε μ β → Option (State τ ε μ β)
  | .addSubscribeCallback env topic callback =>
    let callbacks := s.topicCallbackMap (env, topic) ++ [callback]
    some { s with
      topicCallbackMap := update s.topicCallbackMap (env, topic) callbacks
      registers := if callbacks.length = 1 then s.registers ++ [(env, topic)] else s.registers }
  | .register =>
    match s.registers with
    | [] => none
    | (env, topic) :: registers =>
      some { s with
        registers
        topics := if topic ∈ s.topics then s.topics else s.topics ++ [topic]
        pipe := if topic ∈ s.topics then s.pipe else s.pipe.write
        topicToEnvsMap := update s.topicToEnvsMap topic (s.topicToEnvsMap topic ++ [env]) }
  | .build =>
    if s.pc = .start then
      some { s with pc := if s.topics = [] then .poll else .command s.topics }
    else none
  | .subscribe accepted =>
    match s.pc with
    | .command _ =>
      some { s with
        pc := .poll
        redis := true
        subscribed := s.subscribed ++ accepted
        replies := (s.replies ++ accepted.map fun _ => none).tail }
    | _ => none
  | .publish msg =>
    some (if msg.1 ∈ s.subscribed then { s with replies := s.replies ++ [some msg] } else s)
  | .getReply =>
    if s.pc = .poll then
      match s.replies with
      | [] => none
      | none :: replies => some { s with replies }
      | some msg :: replies =>
        some { s with
          replies
          queue := pushAll msg (s.topicToEnvsMap msg.1) s.queue
          read := s.read ++ [(msg, s.topicToEnvsMap msg.1)] }
    else none
  | .fail =>
    if s.pc = .poll ∧ s.redis then
      some { s with pc := .start, redis := false, subscribed := [], replies := [] }
    else none
  | .readPipe =>
    if s.pc = .poll ∧ 0 < s.pipe.bytes then
      some { s with pipe := s.pipe.read 16, pc := if s.redis then .unsubscribe else .start }
    else none
  | .unsubscribe =>
    if s.pc = .unsubscribe then
      some { s with
        pc := .start
        subscribed := []
        replies := (s.replies ++ List.replicate (max 1 s.subscribed.length) none).tail }
    else none
  | .handle env =>
    match s.queue env with
    | [] => none
    | msg :: queue =>
      some { s with
        queue := update s.queue env queue
        handled := update s.handled env
          (s.handled env ++ [(msg, s.topicCallbackMap (env, msg.1))]) }

/-- Redis accepts a command for the `plain` topics in it, those that `redisCommand` takes for one
word: without a blank or `%`. -/
def State.answers (plain : τ → Bool) (s : State τ ε μ β) : Action τ ε μ β → Bool
  | .subscribe accepted =>
    match s.pc with
    | .command topics => topics.all fun topic => !plain topic || accepted.contains topic
    | _ => true
  | _ => true

variable {s s' : State τ ε μ β} {a : Action τ ε μ β} {as : List (Action τ ε μ β)} {pipe : Pipe}
  {plain : τ → Bool}

/-- An environment that has callbacks for a topic was sent once: it is on its way, or entered. -/
def State.Registered (s : State τ ε μ β) : Prop :=
  ∀ env topic, (s.topicToEnvsMap topic).count env + s.registers.count (env, topic) =
    if s.topicCallbackMap (env, topic) = [] then 0 else 1

theorem State.Registered.step (h : s.Registered) (hs : s.step a = some s') : s'.Registered := by
  cases a with
  | addSubscribeCallback env topic callback =>
    cases hs
    intro e t
    have hold := h e t
    by_cases hkey : (e, t) = (env, topic)
    · cases hkey
      by_cases hnil : s.topicCallbackMap (env, topic) = [] <;> simp_all
    · simp only [update_of_ne hkey, ← hold]
      split_ifs
      · rw [count_append, count_singleton, if_neg (by simpa using Ne.symm hkey), Nat.add_zero]
      · rfl
  | register =>
    simp only [State.step] at hs
    split at hs
    · cases hs
    · rename_i env topic registers hq
      cases hs
      intro e t
      rw [← h e t, hq]
      by_cases ht : t = topic
      · subst ht
        by_cases he : e = env
        · subst he
          simp only [update_self, count_append, count_cons_self, count_nil]
          omega
        · simp [Ne.symm he]
      · simp [ht, Ne.symm ht]
  | _ =>
    simp only [State.step] at hs
    split at hs <;> try split at hs
    all_goals cases hs <;> exact h

/-- A plain topic of the map is subscribed to, or a byte makes `subscribeRoutine` begin again. -/
def State.Covered (plain : τ → Bool) (s : State τ ε μ β) : Prop :=
  (∀ topic, s.topicToEnvsMap topic ≠ [] → topic ∈ s.topics) ∧
  ∀ topic ∈ s.topics, plain topic = true → match s.pc with
    | .command topics => topic ∈ topics ∨ 0 < s.pipe.bytes
    | .poll => topic ∈ s.subscribed ∨ 0 < s.pipe.bytes
    | _ => True

theorem State.Covered.step (h : s.Covered plain) (ha : s.answers plain a = true)
    (hs : s.step a = some s') : s'.Covered plain := by
  obtain ⟨hkeys, hcovered⟩ := h
  cases a with
  | register =>
    simp only [State.step] at hs
    split at hs
    · cases hs
    · rename_i env topic registers hq
      cases hs
      by_cases hmem : topic ∈ s.topics
      · simp only [if_pos hmem]
        exact ⟨(forall_update_iff _ fun t envs => envs ≠ [] → t ∈ s.topics).2
          ⟨fun _ => hmem, fun t _ => hkeys t⟩, hcovered⟩
      · simp only [if_neg hmem]
        refine ⟨(forall_update_iff _ fun t envs => envs ≠ [] → t ∈ s.topics ++ [topic]).2
          ⟨by simp, fun t _ ht => mem_append_left _ (hkeys t ht)⟩, fun t _ _ => ?_⟩
        -- the byte of the new topic
        split <;> simp [s.pipe.bytes_write_pos]
  | build =>
    simp only [State.step] at hs
    split_ifs at hs with hpc hnil <;> cases hs
    · exact ⟨hkeys, by simp [hnil]⟩
    · exact ⟨hkeys, fun t ht _ => Or.inl ht⟩
  | subscribe accepted =>
    simp only [State.step] at hs
    split at hs
    · rename_i topics hpc
      cases hs
      simp only [State.answers, hpc, all_eq_true] at ha
      rw [hpc] at hcovered
      refine ⟨hkeys, fun t ht hplain => (hcovered t ht hplain).imp_left fun hmem => ?_⟩
      exact mem_append_right _ (by simpa [hplain] using ha t hmem)
    · cases hs
  | fail | readPipe | unsubscribe =>
    simp only [State.step] at hs
    split_ifs at hs <;> cases hs <;> exact ⟨hkeys, fun _ _ _ => trivial⟩
  | _ =>
    simp only [State.step] at hs
    split at hs <;> try split at hs
    all_goals cases hs <;> exact ⟨hkeys, hcovered⟩

omit [DecidableEq τ] in
theorem pushAll_apply (msg : τ × μ) (envs : List ε) (queue : ε → List (τ × μ)) (env : ε) :
    pushAll msg envs queue env = queue env ++ List.replicate (envs.count env) msg := by
  induction envs generalizing queue with
  | nil => simp [pushAll]
  | cons e envs ih =>
    refine (ih _).trans ?_
    by_cases he : env = e
    · subst he
      simp [replicate_succ]
    · simp [he, Ne.symm he]

/-- What an environment gets are the messages that were read while it was entered, once each. -/
structure State.Delivered (s : State τ ε μ β) : Prop where
  exactly : ∀ env, (s.handled env).map Prod.fst ++ s.queue env =
    (s.read.filter fun r => env ∈ r.2).map Prod.fst
  known : ∀ env, ∀ msg ∈ s.queue env, s.topicCallbackMap (env, msg.1) ≠ []
  called : ∀ env, ∀ r ∈ s.handled env, r.2 ≠ []

theorem State.Delivered.step (hreg : s.Registered) (h : s.Delivered) (hs : s.step a = some s') :
    s'.Delivered := by
  cases a with
  | addSubscribeCallback env topic callback =>
    cases hs
    refine ⟨h.exactly, fun e msg hmsg => ?_, h.called⟩
    by_cases hkey : (e, msg.1) = (env, topic)
    · simp [hkey]
    · simpa only [update_of_ne hkey] using h.known e msg hmsg
  | getReply =>
    simp only [State.step] at hs
    split_ifs at hs
    split at hs
    · cases hs
    · cases hs
      exact ⟨h.exactly, h.known, h.called⟩
    · rename_i msg replies _
      cases hs
      simp only [State.Registered] at hreg
      refine ⟨fun env => ?_, fun env m hm => ?_, h.called⟩
      · have hone := hreg env msg.1
        simp only [pushAll_apply]
        rw [← append_assoc, h.exactly, filter_append, map_append]
        by_cases hmem : env ∈ s.topicToEnvsMap msg.1
        · have hpos := count_pos_iff.2 hmem
          have : (s.topicToEnvsMap msg.1).count env = 1 := by split_ifs at hone <;> omega
          simp [this, hmem]
        · simp [count_eq_zero.2 hmem, hmem]
      · simp only [pushAll_apply, mem_append, mem_replicate] at hm
        rcases hm with hm | ⟨hne, rfl⟩
        · exact h.known env m hm
        · intro hnil
          have hone := hreg env m.1
          rw [if_pos hnil] at hone
          omega
  | handle env =>
    simp only [State.step] at hs
    split at hs
    · cases hs
    · rename_i msg queue hq
      cases hs
      have hknown := h.known env
      rw [hq, forall_mem_cons] at hknown
      refine ⟨fun e => ?_, (forall_update_iff s.queue fun e q => ∀ m ∈ q,
        s.topicCallbackMap (e, m.1) ≠ []).2 ⟨hknown.2, fun e _ => h.known e⟩,
        (forall_update_iff s.handled fun _ rs => ∀ r ∈ rs, r.2 ≠ []).2 ⟨?_, fun e _ => h.called e⟩⟩
      · rw [← h.exactly e]
        by_cases he : e = env
        · subst he
          simp [hq]
        · simp [he]
      · exact forall_mem_append.2 ⟨h.called env, forall_mem_singleton.2 hknown.1⟩
  | _ =>
    simp only [State.step] at hs
    split at hs <;> try split at hs
    all_goals cases hs <;> exact ⟨h.exactly, h.known, h.called⟩

/-- **Each message that was read is handled once by each environment of its topic**, in order, and
finds a callback there. -/
theorem delivered_once (h : run State.step (.init pipe) as = some s) (env : ε) :
    (s.handled env).map Prod.fst ++ s.queue env =
      (s.read.filter fun r => env ∈ r.2).map Prod.fst ∧ ∀ r ∈ s.handled env, r.2 ≠ [] := by
  have hinv := run_invariant (I := fun s => State.Registered s ∧ State.Delivered s)
    (fun _ _ _ hI hs => ⟨hI.1.step hs, hI.2.step hI.1 hs⟩)
    ⟨fun _ _ => rfl, fun _ => rfl, fun _ _ hm => absurd hm not_mem_nil,
      fun _ _ hr => absurd hr not_mem_nil⟩ h
  exact ⟨hinv.2.exactly env, hinv.2.called env⟩

end Step

/-- Two environments subscribe to topic 7, one of them and then topic 8 after the command was
built; a message comes before the second command. -/
def lateTopic : List (Action ℕ ℕ ℕ ℕ) :=
  [.addSubscribeCallback 0 7 1, .register, .build, .addSubscribeCallback 1 7 2,
    .addSubscribeCallback 1 8 3, .register, .register, .subscribe [7], .publish (7, 5), .getReply,
    .handle 0, .readPipe, .unsubscribe, .build, .subscribe [7, 8]]

/-- The topic that `redisCommand` takes apart: it is never subscribed to, and no byte comes. -/
example : ((run State.step (.init (.new 1 Nat.one_pos)) [.addSubscribeCallback 0 7 1, .register,
    .build, .subscribe [70, 71], .readPipe, .unsubscribe, .build,
    .subscribe [70, 71]]).map fun s : State ℕ ℕ ℕ ℕ => (s.pc, s.subscribed, s.pipe.bytes)) =
      some (.poll, [70, 71], 0) := by
  decide +kernel

theorem delivered_once_lateTopic :
    ∃ s, run State.step (.init (.new 1 Nat.one_pos)) lateTopic = some s ∧
      s.queue 1 = [(7, 5)] ∧ (s.handled 1).map Prod.fst ++ s.queue 1 =
        (s.read.filter fun r => 1 ∈ r.2).map Prod.fst :=
  exists_run_and (by decide +kernel) fun s hs _ => (delivered_once hs 1).1

end Corpc.Pubsub
