/-
# Late completions of an inner call

The service of a call with a time-out may be done before the call expires, after it, or after the
caller made other calls.  What it leaves in the copies reaches the caller's objects through the node
of the call (`Rpc.Inner`), and the node is there only while the caller is in the call.
-/

import Corpc.Rpc.Inner

namespace Corpc.Rpc

open Corpc.Basis Wire Function List Option

variable {δ μ : Type} [DecidableEq δ] {pb : Protobuf δ μ}

namespace Inner

variable {s s' : Inner μ} {j k : ℕ} {a : InnerAction μ}

theorem mem_timeoutList_of_step (hs : s.step pb a = some s') (ha : a.settles = false)
    (hk : k < s.rpc.next) : k ∈ s'.rpc.timeoutList ↔ k ∈ s.rpc.timeoutList := by
  cases a with
  | tick ms =>
    cases hs
    exact Iff.rfl
  | startCoroutine pid co | endCoroutine co | resumeMutex co =>
    obtain ⟨rpc, hrpc, rfl⟩ := map_eq_some_iff.1 hs
    obtain ⟨-, rfl⟩ := ite_some_none_eq_some.1 hrpc
    exact Iff.rfl
  | callMethod co timeout contended controller request response =>
    obtain ⟨rpc, hrpc, rfl⟩ := map_eq_some_iff.1 hs
    obtain ⟨st, t, hi⟩ := State.Calls.issued_of_innerCallMethod hrpc
    exact hi.mem_iff hk.ne
  | mutexPost =>
    obtain ⟨rpc, hrpc, rfl⟩ := map_eq_some_iff.1 hs
    cases envStep_step (a := .mutexPost) hrpc with
    | mutexPost => exact Iff.rfl
  | resumeCo co again =>
    obtain ⟨rpc, hrpc, rfl⟩ := map_eq_some_iff.1 hs
    cases resumeCo_step hrpc with
    | again | acquire | leave => exact Iff.rfl
  | takeRequest i | serve i =>
    obtain ⟨rpc, hrpc, rfl⟩ := map_eq_some_iff.1 hs
    rw [(clientStep_frame hrpc).env]
  | handler i controller request response =>
    simp only [step, handle] at hs
    split_ifs at hs <;> cases hs <;> exact Iff.rfl
  | resumeRoutine i | timeoutRoutine i => cases ha

theorem task_of_step (h : s.Kept) (hs : s.step pb a = some s') (hk : k < s.rpc.next) :
    k < s'.rpc.next ∧ (s'.rpc.tasks k).timed = (s.rpc.tasks k).timed ∧
      ((s.rpc.tasks k).place = .resumed → (s'.rpc.tasks k).place = .resumed) := by
  obtain ⟨rpc, hrpc, hsame⟩ := exists_rpc_of_step hs
  rw [hsame.env, hsame.timed, (hsame.tasks k).2.2.1]
  rcases hrpc with rfl | ⟨act, hact⟩
  · exact ⟨hk, rfl, id⟩
  · cases act with
    | client act =>
      have hf := clientStep_frame hact
      rw [hf.env]
      exact ⟨hk, (hf.tasks k).timed, (hf.tasks k).resumed.2⟩
    | env act =>
      have hf := envStep_frame hact
      have hm := hf.tasks k
      refine ⟨hk.trans_le hf.next, ?_⟩
      generalize rpc.tasks k = t at hm ⊢
      cases hm with
      | stay c hc => exact ⟨rfl, id⟩
      | resume c hp hc => exact ⟨rfl, fun _ => rfl⟩
      | push hco =>
        refine ⟨rfl, fun hp => ?_⟩
        rw [h.calls.parked _ k hco] at hp
        cases hp
      | make hnext => exact absurd hnext hk.ne

theorem response_1_of_step (hs : s.step pb a = some s') (hk : k < s.rpc.next) :
    (s'.messages k).response_1 = (s.messages k).response_1 ∨
      ∃ controller request response, a = .handler k controller request response ∧
        (s.rpc.tasks k).place = .serving ∧ (s'.messages k).response_1 = some response ∧
        (s.messages k).response_1.map pb.descriptor = some (pb.descriptor response) := by
  have hlift : ∀ rpc, s.lift rpc = some s' → (s'.messages k).response_1 =
      (s.messages k).response_1 := by
    intro rpc h
    obtain ⟨rpc, -, rfl⟩ := map_eq_some_iff.1 h
    rfl
  cases a with
  | callMethod co timeout contended controller request response =>
    obtain ⟨rpc, -, rfl⟩ := map_eq_some_iff.1 hs
    exact .inl (congrArg Messages.response_1 (update_of_ne hk.ne ..))
  | handler i controller request response =>
    simp only [step, handle] at hs
    by_cases hi : i = k
    · subst hi
      split_ifs at hs with hp ht hd hd
      · cases hs
        refine .inr ⟨controller, request, response, rfl, hp, ?_, hd⟩
        dsimp only
        rw [update_self]
      · cases hs
        left
        dsimp only
        rw [update_self]
    · split_ifs at hs <;> cases hs <;>
        exact .inl (congrArg Messages.response_1 (update_of_ne (Ne.symm hi) ..))
  | resumeRoutine i =>
    obtain ⟨rpc, -, rfl⟩ := map_eq_some_iff.1 hs
    left
    rcases hf : s.rpc.found i with _ | ⟨err, n⟩
    · rfl
    · dsimp only
      by_cases hn : k = n
      · subst hn
        rw [update_self, Messages.response_1_settle]
      · rw [update_of_ne hn]
  | tick | startCoroutine | endCoroutine | mutexPost | resumeMutex | resumeCo | takeRequest | serve
  | timeoutRoutine => exact .inl (hlift _ hs)

omit [DecidableEq δ] in
theorem resumeRoutine_spec (h : s.Kept) (hs : s.resumeRoutine pb j = some s') :
    ∃ err w, (s.rpc.tasks j).place = .waitResume err w ∧
      (j ∈ s.rpc.timeoutList ∧ s'.rpc.timeoutList = s.rpc.timeoutList.erase j ∧
          s'.rpc.tasks = ((s.rpc.move j .resumed).modify j (State.settle err)).tasks ∧
          s'.messages = update s.messages j ((s.messages j).settle pb err (s.rpc.tasks j)) ∨
        j ∉ s.rpc.timeoutList ∧ s'.rpc.timeoutList = s.rpc.timeoutList ∧
          s'.rpc.tasks = (s.rpc.move j .resumed).tasks ∧ s'.messages = s.messages) := by
  obtain ⟨rpc, hrpc, rfl⟩ := map_eq_some_iff.1 hs
  obtain ⟨err, w, hplace, hcases⟩ := State.resumeCall_spec hrpc
  refine ⟨err, w, hplace, ?_⟩
  rcases hcases with ⟨hexp, rfl⟩ | ⟨hexp, n, hn, hne, rfl⟩ | ⟨hexp, rfl, hn⟩
  · -- a call without time-out
    have hmem : j ∉ s.rpc.timeoutList := by
      intro hj
      have ht := (h.calls.node j hj).1
      rw [RpcClientTask.timed, hexp] at ht
      cases ht
    have hfound : s.rpc.found j = none := by simp [State.found, hplace, hexp]
    refine .inr ⟨hmem, rfl, rfl, ?_⟩
    rw [hfound]
  · obtain ⟨hm, hco⟩ := State.Calls.getNode_spec hn
    have hnj : n = j := h.calls.call_of_node (.inl (by rw [hplace]; rfl)) hm hco hne
    subst hnj
    have hfound : s.rpc.found n = some (err, n) := by simp [State.found, hplace, hexp, hn]
    refine .inl ⟨hm, rfl, rfl, ?_⟩
    rw [hfound]
  · have hfound : s.rpc.found j = none := by
      simp only [State.found, hplace, if_pos hexp]
      rcases hg : s.rpc.getNode (s.rpc.tasks j).pid (s.rpc.tasks j).co with _ | n
      · rfl
      · exact if_neg (hn n hg)
    refine .inr ⟨h.calls.not_mem_of_getNode hn, rfl, rfl, ?_⟩
    rw [hfound]

/-- What a call with a time-out has come to: its node is there, or it failed, or the response of the
service was merged. -/
structure Outcome (pb : Protobuf δ μ) (k : ℕ) (r : μ) (s : Inner μ) : Prop where
  lt : k < s.rpc.next
  timed : (s.rpc.tasks k).timed = true
  copy : ∃ m, (s.messages k).response_1 = some m ∧ pb.descriptor m = pb.descriptor r
  waiting : k ∈ s.rpc.timeoutList → (s.messages k).response = r
  settled : k ∉ s.rpc.timeoutList → (s.rpc.tasks k).controller.failed = true ∨
    (s.rpc.tasks k).place = .resumed ∧ ∃ m, (s.messages k).response_1 = some m ∧
      (s.messages k).response = pb.mergeFrom r m

variable {r : μ}

theorem Outcome.copy_step (h : s.Outcome pb k r) (hs : s.step pb a = some s') :
    ∃ m, (s'.messages k).response_1 = some m ∧ pb.descriptor m = pb.descriptor r := by
  obtain ⟨m, hm, hd⟩ := h.copy
  rcases response_1_of_step hs h.lt with he | ⟨c, q, m', -, -, he, hd'⟩
  · exact ⟨m, he.trans hm, hd⟩
  · rw [hm] at hd'
    exact ⟨m', he, (some.inj hd').symm.trans hd⟩

section

variable (h : s.Outcome pb k r) (hkept : s.Kept) (hs : s.step pb a = some s')
include h hkept hs

theorem Outcome.of_caller (hmem : k ∈ s'.rpc.timeoutList ↔ k ∈ s.rpc.timeoutList)
    (hcaller : s'.caller k = s.caller k) : s'.Outcome pb k r := by
  obtain ⟨hlt, htimed, hresumed⟩ := task_of_step hkept hs h.lt
  have hresponse : (s'.messages k).response = (s.messages k).response :=
    congrArg CallerObjects.response hcaller
  have hcontroller : (s'.rpc.tasks k).controller = (s.rpc.tasks k).controller :=
    congrArg CallerObjects.controller hcaller
  refine ⟨hlt, htimed.trans h.timed, h.copy_step hs, fun hk => ?_, fun hk => ?_⟩
  · rw [hresponse]
    exact h.waiting (hmem.1 hk)
  · rw [hcontroller, hresponse]
    rcases h.settled (fun hk' => hk (hmem.2 hk')) with hfail | ⟨hplace, m, hm, hmerge⟩
    · exact .inl hfail
    · -- the service is done, so the copy stays
      have hsame : (s'.messages k).response_1 = (s.messages k).response_1 := by
        rcases response_1_of_step hs h.lt with he | ⟨c, q, m', -, hserving, -⟩
        · exact he
        · rw [hplace] at hserving
          cases hserving
      exact .inr ⟨hresumed hplace, m, hsame.trans hm, hmerge⟩

theorem Outcome.of_message {err : ℕ} (hmem : k ∈ s.rpc.timeoutList)
    (hlist : s'.rpc.timeoutList = s.rpc.timeoutList.erase k)
    (htasks : s'.rpc.tasks = ((s.rpc.move k .resumed).modify k (State.settle err)).tasks)
    (hmsg : s'.messages = update s.messages k ((s.messages k).settle pb err (s.rpc.tasks k))) :
    s'.Outcome pb k r := by
  obtain ⟨hlt, htimed, -⟩ := task_of_step hkept hs h.lt
  obtain ⟨m, hm, -⟩ := h.copy
  have hr := h.waiting hmem
  have htask : s'.rpc.tasks k = State.settle err { s.rpc.tasks k with place := .resumed } := by
    rw [htasks, State.tasks_modify, if_pos rfl, State.tasks_move, if_pos rfl]
  refine ⟨hlt, htimed.trans h.timed, h.copy_step hs, fun hk => ?_, fun _ => ?_⟩
  · rw [hlist] at hk
    exact absurd hk hkept.calls.nodup.not_mem_erase
  · rw [htask, hmsg, update_self, Messages.response_1_settle]
    have hsettle := settle_cases pb err { s.rpc.tasks k with place := .resumed } (s.messages k)
    rcases hsettle with ⟨hfailed, -⟩ | ⟨hstay, hmerge⟩
    · exact .inl hfailed
    · have hresponse : ((s.messages k).settle pb err (s.rpc.tasks k)).response =
          pb.mergeFrom r m := by
        have hsame : (s.messages k).settle pb err (s.rpc.tasks k) = (s.messages k).merge pb :=
          hmerge
        rw [hsame, Messages.merge, hm, hr]
      rw [hstay]
      exact .inr ⟨rfl, m, hm, hresponse⟩

theorem Outcome.step :
    s'.Outcome pb k r := by
  cases a with
  | resumeRoutine j =>
    obtain ⟨err, w, hplace, hcases⟩ := resumeRoutine_spec hkept hs
    by_cases hjk : k = j
    · subst hjk
      rcases hcases with ⟨hmem, hlist, htasks, hmsg⟩ | ⟨hmem, hlist, htasks, hmsg⟩
      · exact h.of_message hkept hs hmem hlist htasks hmsg
      · -- the call failed before: its message was not handled yet
        have hfail : (s.rpc.tasks k).controller.failed = true := by
          refine (h.settled hmem).resolve_right fun hdone => ?_
          rw [hdone.1] at hplace
          cases hplace
        obtain ⟨hlt, htimed, -⟩ := task_of_step hkept hs h.lt
        refine ⟨hlt, htimed.trans h.timed, h.copy_step hs, fun hk => ?_, fun _ => .inl ?_⟩
        · rw [hlist] at hk
          exact absurd hk hmem
        · rw [htasks, State.tasks_move]
          exact hfail
    · refine h.of_caller hkept hs ?_ ?_
      · rcases hcases with ⟨-, hlist, -⟩ | ⟨-, hlist, -⟩
        · rw [hlist, mem_erase_of_ne hjk]
        · rw [hlist]
      · unfold caller
        rcases hcases with ⟨-, -, htasks, hmsg⟩ | ⟨-, -, htasks, hmsg⟩
        · rw [htasks, hmsg, update_of_ne hjk, State.tasks_modify, if_neg hjk, State.tasks_move]
        · rw [htasks, hmsg, State.tasks_move]
  | timeoutRoutine j =>
    obtain ⟨rpc, hrpc, rfl⟩ := map_eq_some_iff.1 hs
    obtain ⟨hexp, hrpc⟩ := ite_none_right_eq_some.1 hrpc
    have htasks : rpc.tasks = (s.rpc.modify j State.expire).tasks := by
      rw [← some.inj hrpc]
      rfl
    have hlist : rpc.timeoutList = s.rpc.timeoutList.erase j := by
      rw [← some.inj hrpc]
      rfl
    by_cases hjk : k = j
    · subst hjk
      obtain ⟨hlt, htimed, -⟩ := task_of_step hkept hs h.lt
      refine ⟨hlt, htimed.trans h.timed, h.copy_step hs, fun hk => ?_, fun _ => .inl ?_⟩
      · rw [hlist] at hk
        exact absurd hk hkept.calls.nodup.not_mem_erase
      · rw [htasks, State.tasks_modify, if_pos rfl]
        exact Controller.failed_setFailed ..
    · refine h.of_caller hkept hs ?_ ?_
      · rw [hlist, mem_erase_of_ne hjk]
      · unfold caller
        rw [htasks, State.tasks_modify, if_neg hjk]
  | _ =>
    exact h.of_caller hkept hs (mem_timeoutList_of_step hs rfl h.lt)
      (caller_of_step h.lt h.timed (by nofun) hs)

end

theorem outcome_of_callMethod {co timeout : ℕ} {contended : Bool}
    {controller : Controller ErrorText} {request response : μ} (ht : 0 < timeout)
    (hs : s.step pb (.callMethod co timeout contended controller request response) = some s') :
    s'.Outcome pb s.rpc.next response := by
  obtain ⟨rpc, hrpc, rfl⟩ := map_eq_some_iff.1 hs
  obtain ⟨st, t, hi⟩ := State.Calls.issued_of_innerCallMethod hrpc
  have hlist : rpc.timeoutList = s.rpc.timeoutList ++ [s.rpc.next] :=
    hi.timeoutList.trans (if_neg ht.ne')
  have hmem : s.rpc.next ∈ rpc.timeoutList := by
    rw [hlist]
    simp
  have htimed : (rpc.tasks s.rpc.next).timed = true := by
    rw [hi.tasks_next]
    exact hi.timed_iff.2 ht.ne'
  refine ⟨?_, ?_, ⟨pb.new (pb.descriptor response), ?_, pb.descriptor_new _⟩, fun _ => ?_,
    fun h => absurd hmem h⟩
  · have hnext : rpc.next = s.rpc.next + 1 := hi.next
    exact hnext ▸ Nat.lt_succ_self _
  · dsimp only
    rw [State.tasks_modify, if_pos rfl]
    exact htimed
  · dsimp only
    rw [update_self]
    exact if_neg ht.ne'
  · dsimp only
    rw [update_self]

structure Released (k : ℕ) (s : Inner μ) : Prop where
  kept : s.Kept
  lt : k < s.rpc.next
  timed : (s.rpc.tasks k).timed = true
  gone : k ∉ s.rpc.timeoutList

theorem Released.step (h : s.Released k) (hs : s.step pb a = some s') : s'.Released k := by
  obtain ⟨hlt, htimed, -⟩ := task_of_step h.kept hs h.lt
  refine ⟨h.kept.step hs, hlt, htimed.trans h.timed, ?_⟩
  cases a with
  | resumeRoutine j =>
    obtain ⟨-, -, -, ⟨-, hlist, -⟩ | ⟨-, hlist, -⟩⟩ := resumeRoutine_spec h.kept hs
    · rw [hlist]
      exact fun hk => h.gone (mem_of_mem_erase hk)
    · rw [hlist]
      exact h.gone
  | timeoutRoutine j =>
    obtain ⟨rpc, hrpc, rfl⟩ := map_eq_some_iff.1 hs
    obtain ⟨-, rfl⟩ := ite_some_none_eq_some.1 hrpc
    exact fun hk => h.gone (mem_of_mem_erase hk)
  | _ => exact fun hk => h.gone ((mem_timeoutList_of_step hs rfl h.lt).1 hk)

end Inner

/-- **Late completions of inner calls do not disturb the caller.** -/
theorem inner_call_isolated (pb : Protobuf δ μ) {messages : ℕ → Messages μ}
    {as₀ as : List (InnerAction μ)} {s₀ s₁ s : Inner μ}
    (hrun₀ : run (Inner.step pb) (.init messages) as₀ = some s₀) {co timeout : ℕ}
    {contended : Bool} {controller : Controller ErrorText} {request response : μ} (ht : 0 < timeout)
    (hcall : s₀.step pb (.callMethod co timeout contended controller request response) = some s₁)
    (hrun : run (Inner.step pb) s₁ as = some s) {k : ℕ} (hk : k = s₀.rpc.next) :
    (∀ a s', s.step pb a = some s' → a.settles = true ∧ s.rpc.awaits k ∨
      s'.caller k = s.caller k ∧ ∀ v, (s.overwrite k v).step pb a = some (s'.overwrite k v)) ∧
    (s.rpc.returned k = true → ∀ bs, (∀ v, run (Inner.step pb) (s.overwrite k v) bs =
        (run (Inner.step pb) s bs).map (·.overwrite k v)) ∧
      ∀ s', run (Inner.step pb) s bs = some s' → s'.caller k = s.caller k) ∧
    (s.rpc.returned k = true → (s.caller k).controller.failed = false →
      ∃ m, (s.messages k).response_1 = some m ∧ (s.caller k).response = pb.mergeFrom response m ∧
        (pb.Empty response → (s.caller k).response = m)) ∧
    ∀ a s', s.step pb a = some s' → (s'.messages k).response_1 = (s.messages k).response_1 ∨
      ∃ c q m, a = .handler k c q m ∧ (s'.messages k).response_1 = some m := by
  subst hk
  have hkept₀ : s₀.Kept :=
    run_invariant (fun _ _ _ h hs => h.step hs) (Inner.kept_init messages) hrun₀
  obtain ⟨hkept, hout⟩ : s.Kept ∧ s.Outcome pb s₀.rpc.next response :=
    run_invariant (I := fun s => s.Kept ∧ s.Outcome pb s₀.rpc.next response)
      (fun _ _ _ h hs => ⟨h.1.step hs, h.2.step h.1 hs⟩)
      ⟨hkept₀.step hcall, Inner.outcome_of_callMethod ht hcall⟩ hrun
  have hgone : s.rpc.returned s₀.rpc.next = true → s.Released s₀.rpc.next := by
    intro hr
    refine ⟨hkept, hout.lt, hout.timed, ?_⟩
    have hfired := (hkept.returned _ hr).2
    rw [State.fired, if_pos hout.timed] at hfired
    exact of_decide_eq_true hfired
  refine ⟨fun a s' hs => ?_, fun hr bs => ⟨fun v => ?_, fun s' hs' => ?_⟩, fun hr hok => ?_,
    fun a s' hs => ?_⟩
  · by_cases ha : a.settles = true ∧ s₀.rpc.next ∈ s.rpc.timeoutList
    · exact .inl ⟨ha.1, (hkept.calls.node _ ha.2).2⟩
    · have hout' : a.settles = true → s₀.rpc.next ∉ s.rpc.timeoutList := fun h hk => ha ⟨h, hk⟩
      refine .inr ⟨Inner.caller_of_step hout.lt hout.timed hout' hs, fun v => ?_⟩
      rw [Inner.step_overwrite hout.lt hout.timed hout', hs]
      rfl
  · have hcomm : ∀ (t : Inner μ) a, t.Released s₀.rpc.next → (t.overwrite s₀.rpc.next v).step pb a =
        (t.step pb a).map (·.overwrite s₀.rpc.next v) :=
      fun t a h => Inner.step_overwrite h.lt h.timed fun _ => h.gone
    exact run_map (fun _ _ _ h hs => h.step hs) hcomm (hgone hr)
  · exact (run_invariant (I := fun t => t.Released s₀.rpc.next ∧
        t.caller s₀.rpc.next = s.caller s₀.rpc.next)
      (fun t a t' h hs => ⟨h.1.step hs,
        (Inner.caller_of_step h.1.lt h.1.timed (fun _ => h.1.gone) hs).trans h.2⟩)
      ⟨hgone hr, rfl⟩ hs').2
  · rcases hout.settled (hgone hr).gone with hfail | ⟨-, m, hm, hmerge⟩
    · exact absurd (hfail.symm.trans hok) (by decide)
    · refine ⟨m, hm, hmerge, fun hempty => hmerge.trans (pb.mergeFrom_empty hempty ?_)⟩
      obtain ⟨m', hm', hd⟩ := hout.copy
      rw [hm] at hm'
      cases hm'
      exact hd
  · rcases Inner.response_1_of_step hs hout.lt with h | ⟨c, q, m, ha, -, hm, -⟩
    · exact .inl h
    · exact .inr ⟨c, q, m, ha, hm⟩

def noMessages : ℕ → Messages (ℕ × List UInt8) := fun _ => ⟨(1, []), (1, []), none, none⟩

def expiring : List (InnerAction (ℕ × List UInt8)) :=
  [.takeRequest 0, .tick 10, .timeoutRoutine 0, .resumeCo 1 false]

def lateCompletion : List (InnerAction (ℕ × List UInt8)) :=
  [.callMethod 1 10 false .reset (1, [5]) (1, []), .handler 0 .reset (1, []) (1, [7]), .serve 0,
    .resumeRoutine 0]

/-- `inner_call_isolated` at these: the response of the service is in the copy, the caller's
objects are as they were when the call returned. -/
theorem inner_call_isolated_late : ∃ s₁ s s', run (Inner.step (.ofBytes ℕ)) (.init noMessages)
      [.startCoroutine 0 1, .callMethod 1 10 false .reset (1, [4]) (1, [])] = some s₁ ∧
    run (Inner.step (.ofBytes ℕ)) s₁ expiring = some s ∧ s.rpc.returned 0 = true ∧
    run (Inner.step (.ofBytes ℕ)) s lateCompletion = some s' ∧
    (s'.messages 0).response_1 = some (1, [7]) ∧ s'.caller 0 = s.caller 0 := by
  have hall : (run (Inner.step (.ofBytes ℕ)) (.init noMessages) ([.startCoroutine 0 1] ++
      ([.callMethod 1 10 false .reset (1, [4]) (1, [])] ++ expiring))).map (fun s =>
        s.rpc.returned 0 && (run (Inner.step (.ofBytes ℕ)) s lateCompletion).any fun s' =>
          (s'.messages 0).response_1 = some (1, [7])) = some true := by
    decide +kernel
  obtain ⟨s, hs, hp⟩ := exists_of_run_map hall
  obtain ⟨hreturned, hlate⟩ := Bool.and_eq_true_iff.1 hp
  obtain ⟨s', hs', hcopy⟩ := (any_eq_true _ _).1 hlate
  rw [run_append] at hs
  obtain ⟨s₀, h₀, hs⟩ := bind_eq_some_iff.1 hs
  rw [run_append] at hs
  obtain ⟨s₁, h₁, hs⟩ := bind_eq_some_iff.1 hs
  have hcall : s₀.step (.ofBytes ℕ) (.callMethod 1 10 false .reset (1, [4]) (1, [])) = some s₁ := by
    simpa [run_cons] using h₁
  have hfirst : 0 = s₀.rpc.next := by
    have hnext := congrArg (Option.map fun s : Inner (ℕ × List UInt8) => s.rpc.next) h₀
    exact some.inj hnext
  have hrun : run (Inner.step (.ofBytes ℕ)) (.init noMessages)
      ([.startCoroutine 0 1] ++ [.callMethod 1 10 false .reset (1, [4]) (1, [])]) = some s₁ := by
    rw [run_append, h₀]
    exact h₁
  obtain ⟨-, hfree, -⟩ := inner_call_isolated (.ofBytes ℕ) h₀ (by decide) hcall hs hfirst
  exact ⟨s₁, s, s', hrun, hs, hreturned, hs', of_decide_eq_true hcopy,
    (hfree hreturned lateCompletion).2 s' hs'⟩

end Corpc.Rpc
