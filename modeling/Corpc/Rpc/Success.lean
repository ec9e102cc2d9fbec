/-
# A call that did not fail was answered

`resumeRoutine` fails a call with a time-out from the error number in the message or from
`controller_1`.
-/

import Corpc.Rpc.CallsKept

namespace Corpc.Rpc

open Corpc.Basis

/-- The caller can tell what became of the call: it failed, or its response was
parsed. -/
def RpcClientTask.told (t : RpcClientTask) : Prop := t.controller.failed = true ∨ t.parsed = true

def RpcClientTask.reports (t : RpcClientTask) (err : ℕ) : Prop :=
  t.told ∨ t.timed = true ∧ (err ≠ 0 ∨ ∃ c, t.controller_1 = some c ∧ c.failed = true)

theorem failed_of_errorCode {τ : Type} (c : Controller τ) {e : UInt32} (he : e ≠ 0) :
    (c.setErrorCode e.toInt32).failed = true := by
  rw [Controller.failed_setErrorCode, bne_iff_ne]
  intro h0
  exact he (congrArg Int32.toUInt32 h0)

theorem complete_tells {j : ℕ} {f : Frame} {t t' : RpcClientTask}
    (h : State.complete j f t = some t') : t'.reports 0 ∧ (t.told → t'.told) ∧
      (t'.parsed = true → t.parsed = true ∨ f.errorCode = 0 ∧ f.parsable = true) := by
  unfold State.complete at h
  dsimp only at h
  split_ifs at h with he hc ht hp
  · cases h
    exact ⟨.inr ⟨ht, .inr ⟨_, rfl, failed_of_errorCode _ he⟩⟩, id, .inl⟩
  · cases h
    have hf := failed_of_errorCode (t.controller.setFailed (.text f.body)) he
    exact ⟨.inl (.inl hf), fun _ => .inl hf, .inl⟩
  · cases h
    exact ⟨.inl (.inr rfl), fun _ => .inr rfl, fun _ => .inr ⟨not_not.1 he, hp⟩⟩

theorem told_settle {err : ℕ} {t : RpcClientTask} (h : t.reports err) :
    (State.settle err t).told := by
  obtain ⟨c, hc, hfailed⟩ := State.settle_eq err t
  rcases h with (hf | hp) | ⟨-, herr | ⟨d, hd, hf⟩⟩
  · rw [hc]
    exact .inl (hfailed hf)
  · rw [hc]
    exact .inr hp
  · unfold State.settle
    rw [if_pos herr]
    exact .inl rfl
  · unfold State.settle
    split_ifs
    · exact .inl rfl
    · simp only [hd, hf, if_true]
      exact .inl hf

namespace EnvMove

variable {s : State} {n k : ℕ} {t : RpcClientTask}

theorem told (h : EnvMove s n k t) (hk : k ≠ s.next) (ht : (s.tasks k).told) : t.told := by
  rcases h with ⟨c, hc⟩ | ⟨c, -, hc⟩ | - | hn
  · exact ht.imp_left hc
  · exact ht.imp_left hc
  · exact ht
  · exact absurd hn hk

theorem message (h : EnvMove s n k t) {err : ℕ} {w : Wake} (ht : t.place = .waitResume err w) :
    (s.tasks k).place = .waitResume err w ∧ t.channel = (s.tasks k).channel ∧
      ((s.tasks k).reports err → t.reports err) := by
  rcases h with ⟨c, hc⟩ | ⟨c, -, -⟩ | - | ⟨-, -, -, hp⟩
  · exact ⟨ht, rfl, fun hr => hr.imp_left fun htold => htold.imp_left hc⟩
  · cases ht
  · cases ht
  · split_ifs at hp
    · rcases hp with hp | hp <;> (rw [hp] at ht; cases ht)
    · rw [hp] at ht
      cases ht

theorem parsed (h : EnvMove s n k t) (ht : t.parsed = true) : (s.tasks k).parsed = true := by
  rcases h with _ | _ | _ | ⟨-, -, hu, -⟩
  · exact ht
  · exact ht
  · exact ht
  · rw [hu.2] at ht
    cases ht

theorem channel (h : EnvMove s n k t) (hk : k ≠ s.next) : t.channel = (s.tasks k).channel := by
  rcases h with _ | _ | _ | hn
  · rfl
  · rfl
  · rfl
  · exact absurd hn hk

end EnvMove

namespace ClientMove

variable {a : ClientAction} {s : State} {k : ℕ} {t : RpcClientTask}

theorem told (h : ClientMove a s k t) (hk : (s.tasks k).place ≠ .serving)
    (ht : (s.tasks k).told) : t.told := by
  have hfail : ∀ err, ((s.tasks k).resumeFailed k err).told := by
    intro err
    unfold RpcClientTask.resumeFailed
    split_ifs
    · exact ht
    · exact .inl (Controller.failed_setFailed _ _)
  cases h with
  | refuse | clear => exact hfail _
  | complete _ _ _ _ _ _ hcomplete => exact (complete_tells hcomplete).2.1 ht
  | serve c c₁ hp => exact absurd hp hk
  | _ => exact ht

theorem parsed (h : ClientMove a s k t) (ht : t.parsed = true) (hs : (s.tasks k).parsed = false) :
    ∃ j c f, a = .decode j ∧ (s.tasks j).request = .answered c f ∧ (s.conns c).ended = false ∧
      (s.tasks k).place = .waitResult c ∧ (s.tasks k).co = (s.tasks j).co ∧
      (s.tasks k).expireTime = (s.tasks j).expireTime ∧ f.errorCode = 0 ∧ f.parsable = true := by
  cases h with
  | complete hp ha hj hopen hco hexp hcomplete =>
    rcases (complete_tells hcomplete).2.2 ht with hold | hframe
    · exact absurd (hold.symm.trans hs) (by decide)
    · exact ⟨_, _, _, ha, hj, hopen, hp, hco, hexp, hframe⟩
  | _ => exact absurd (ht.symm.trans hs) (by decide)

end ClientMove

/-- No connection attempt ends with an error that only the socket has, while a call with
a time-out waits for it. -/
def reportsErrno (s : State) : Action → Bool
  | .client (.connectDone (.socketError _)) =>
    match s.connection with
    | .connecting c => !s.anyCall fun t => t.place = .waitSend c && t.timed
    | _ => true
  | _ => true

/-- Callers of the `RpcClient` are told. -/
structure State.Honest (s : State) : Prop where
  message : ∀ k, (s.tasks k).channel ≠ none → ∀ err w, (s.tasks k).place = .waitResume err w →
    (s.tasks k).reports err
  fired : ∀ k, k < s.next → (s.tasks k).channel ≠ none → s.fired k = true → (s.tasks k).told
  returned : ∀ k, s.returned k = true → k < s.next ∧ ((s.tasks k).channel ≠ none → (s.tasks k).told)

namespace State.Honest

variable {s s' : State}

theorem message_of_client (h : s.Honest) (hk : s.Kinds) {a : ClientAction}
    (hok : reportsErrno s (.client a) = true) {k : ℕ} {t : RpcClientTask}
    (hm : ClientMove a s k t) (hc : (s.tasks k).channel ≠ none) {err : ℕ} {w : Wake}
    (ht : t.place = .waitResume err w) : t.reports err := by
  have hinner : (s.tasks k).place.inner = false :=
    Bool.eq_false_iff.2 fun hi => hc (hk.inner k hi)
  have hfail : ∀ e, (e ≠ 0 ∨ (s.tasks k).timed = false) →
      ((s.tasks k).resumeFailed k e).reports e := by
    intro e he
    cases htimed : (s.tasks k).timed with
    | true => exact .inr ⟨htimed, .inl (he.resolve_right (by rw [htimed]; decide))⟩
    | false =>
      refine .inl (.inl ?_)
      simp [RpcClientTask.resumeFailed, htimed]
  cases hm with
  | stay | answer | miss => exact h.message k hc err w ht
  | refuse hp hpc hf =>
    obtain ⟨o, rfl, hpos, hfailure⟩ := hf
    cases ht
    refine hfail _ ?_
    cases o with
    | established | establishedLater => cases hfailure
    | refused e | getsockoptFailed e =>
      cases hfailure
      exact .inl (of_decide_eq_true hpos)
    | socketError e =>
      -- `errno` is 0 here, and no call with a time-out waits
      simp only [reportsErrno, hpc, Bool.not_eq_true'] at hok
      have hnone := (s.anyCall_eq_false.1 hok) k (hk.lt_next (by rw [hp]; rintro ⟨⟩))
      simp only [hp, decide_true, Bool.true_and] at hnone
      exact .inr hnone
  | clear =>
    cases ht
    exact hfail _ (.inl (by decide))
  | complete _ _ _ _ _ _ hcomplete =>
    have := (complete_spec hcomplete).2.1
    rw [ht] at this
    cases this
    exact (complete_tells hcomplete).1
  | expire hp | serve c c₁ hp => rw [hp] at hinner; cases hinner
  | _ => cases ht

theorem client (h : s.Honest) (hk : s.Kinds) {a : ClientAction}
    (hok : reportsErrno s (.client a) = true) (hf : ClientFrame a s s') : s'.Honest := by
  have hnext : s'.next = s.next := congrArg Environment.next hf.env
  have hreturned : s'.returned = s.returned := congrArg Environment.returned hf.env
  have hchannel : ∀ k, (s'.tasks k).channel = (s.tasks k).channel := fun k =>
    (hf.tasks k).const.2.2.1
  have htold : ∀ k, (s.tasks k).channel ≠ none → (s.tasks k).told → (s'.tasks k).told := by
    intro k hc ht
    refine (hf.tasks k).told (fun hp => hc (hk.inner k ?_)) ht
    rw [hp]
    rfl
  refine ⟨fun k hc err w hp => ?_, fun k hlt hc hfired => ?_, fun k hr => ?_⟩
  · exact h.message_of_client hk hok (hf.tasks k) (hchannel k ▸ hc) hp
  · rw [hchannel] at hc
    rw [State.Calls.fired_of_client hf] at hfired
    exact htold k hc (h.fired k (hnext ▸ hlt) hc hfired)
  · obtain ⟨hlt, ht⟩ := h.returned k (hreturned ▸ hr)
    rw [hnext, hchannel]
    exact ⟨hlt, fun hc => htold k hc (ht hc)⟩

theorem env (h : s.Honest) (hf : EnvFrame s s')
    (hfired : ∀ k, k < s'.next → (s'.tasks k).channel ≠ none → s'.fired k = true →
      (k < s.next ∧ s.fired k = true) ∨ (s'.tasks k).told) (hreturned : ∀ k, s'.returned k = true →
      s.returned k = true ∨ k < s.next ∧ s.fired k = true) : s'.Honest := by
  have hold : ∀ k, k < s.next → ((s'.tasks k).channel = (s.tasks k).channel) ∧
      ((s.tasks k).told → (s'.tasks k).told) :=
    fun k hlt => ⟨(hf.tasks k).channel hlt.ne, (hf.tasks k).told hlt.ne⟩
  refine ⟨fun k hc err w hp => ?_, fun k hlt hc hfk => ?_, fun k hr => ?_⟩
  · obtain ⟨hplace, hchannel, hreports⟩ := (hf.tasks k).message hp
    exact hreports (h.message k (hchannel ▸ hc) err w hplace)
  · rcases hfired k hlt hc hfk with ⟨hlt', hfk'⟩ | ht
    · obtain ⟨hchannel, htold⟩ := hold k hlt'
      exact htold (h.fired k hlt' (hchannel ▸ hc) hfk')
    · exact ht
  · have htell : k < s.next ∧ ((s.tasks k).channel ≠ none → (s.tasks k).told) := by
      rcases hreturned k hr with hr | ⟨hlt, hfk⟩
      · exact h.returned k hr
      · exact ⟨hlt, fun hc => h.fired k hlt hc hfk⟩
    obtain ⟨hchannel, htold⟩ := hold k htell.1
    exact ⟨htell.1.trans_le hf.next, fun hc => htold (htell.2 (hchannel ▸ hc))⟩

theorem of_unfired (h : s.Honest) (hf : EnvFrame s s')
    (hfired : ∀ k, k < s'.next → s'.fired k = true → k < s.next ∧ s.fired k = true)
    (hreturned : s'.returned = s.returned) : s'.Honest :=
  h.env hf (fun k hlt _ hfk => .inl (hfired k hlt hfk)) fun _ hr => .inl (hreturned ▸ hr)

theorem issued (h : s.Honest) (hf : EnvFrame s s') {co timeout : ℕ} {st : CoState}
    {t : RpcClientTask} (hi : Issued s s' co timeout st t) : s'.Honest := by
  refine h.of_unfired hf (fun k hlt hfk => ?_) hi.returned
  rw [hi.next] at hlt
  by_cases hk : k = s.next
  · rw [hk, hi.fired_next] at hfk
    cases hfk
  · exact ⟨by omega, hi.fired_of_ne hk ▸ hfk⟩

theorem settles (h : s.Honest) (hf : EnvFrame s s') {k : ℕ} (hs : Settles s s' k)
    (hk : s.fired k = false → (s'.tasks k).channel ≠ none → (s'.tasks k).told) : s'.Honest := by
  obtain ⟨hnext, -, -, -, -, -, hreturned⟩ := hs.frame
  refine h.env hf (fun j hlt hc hfj => ?_) fun j hr => .inl (hreturned ▸ hr)
  by_cases hj : j = k
  · subst hj
    cases hfired : s.fired j with
    | true => exact .inl ⟨hnext ▸ hlt, rfl⟩
    | false => exact .inr (hk hfired hc)
  · exact .inl ⟨hnext ▸ hlt, hs.fired_of_ne hj ▸ hfj⟩

theorem resumeCall (h : s.Honest) (hcalls : s.Calls) {k : ℕ} (hs : s.resumeCall k = some s') :
    s'.Honest := by
  refine h.settles (resumeCall_frame hs) (hcalls.settles_of_resumeCall hs) fun hfired hc => ?_
  obtain ⟨err, w, hplace, hs'⟩ := resumeCall_spec hs
  have hlive : s.pending k := .inl (by rw [hplace]; rfl)
  rw [((resumeCall_frame hs).tasks k).channel (hcalls.lt_next hlive).ne] at hc
  have hreports := h.message k hc err w hplace
  rcases hs' with ⟨hexp, rfl⟩ | ⟨-, n, hn, hne, rfl⟩ | ⟨hexp, -, hn⟩
  · -- without time-out, the routine that gave it up has failed it
    show ((s.move k .resumed).tasks k).told
    rw [tasks_move]
    refine hreports.resolve_right fun ⟨ht, _⟩ => ?_
    simp [RpcClientTask.timed, hexp] at ht
  · obtain ⟨hm, hco⟩ := Calls.getNode_spec hn
    obtain rfl := hcalls.call_of_node hlive hm hco hne
    show (((s.move n .resumed).modify n (settle err)).tasks n).told
    rw [tasks_modify, if_pos rfl, tasks_move]
    exact told_settle hreports
  · have hm := hcalls.not_mem_of_getNode hn
    simp [State.fired, RpcClientTask.timed, hexp, hm] at hfired

theorem step (h : s.Honest) (hc : s.Coherent) {a : Action} (hok : reportsErrno s a = true)
    (hs : s.step a = some s') : s'.Honest := by
  cases a with
  | client a => exact h.client hc.kinds hok (clientStep_frame hs)
  | env a =>
    have hf : EnvFrame s s' := envStep_frame hs
    cases envStep_step hs with
    | tick | startCoroutine | endCoroutine | mutexPost | resumeMutex | again =>
      exact h.of_unfired hf (fun k hlt hfk => ⟨hlt, hfk⟩) rfl
    | callMethod =>
      obtain ⟨st, t, hi⟩ := Calls.issued_of_callMethod hs
      exact h.issued hf hi
    | park | push =>
      obtain ⟨st, t, hi⟩ := Calls.issued_of_innerCallMethod hs
      exact h.issued hf hi
    | resumeCall hs => exact h.resumeCall hc.calls hs
    | @timeout k =>
      refine h.settles hf (hc.calls.settles_of_timeout hs) fun _ _ => .inl ?_
      show ((s.modify k expire).tasks k).controller.failed = true
      rw [tasks_modify, if_pos rfl]
      exact Controller.failed_setFailed _ _
    | @acquire co k _ hco =>
      refine h.of_unfired hf (fun j hlt hfj => ⟨hlt, ?_⟩) rfl
      have hplace : (s.tasks k).place ≠ .resumed := by
        rw [hc.calls.parked co k hco]
        nofun
      refine Eq.trans (Calls.fired_move ?_ (by nofun) j).symm hfj
      exact hplace
    | @leave co k _ ha hco =>
      -- a call that returns was settled
      refine h.env hf (fun j hlt _ hfj => .inl ⟨hlt, hfj⟩) fun j hr => ?_
      simp only [Function.update_apply] at hr
      split_ifs at hr with hj
      · rw [hj]
        exact .inr ⟨(hc.calls.call co k (by rw [hco]; rfl)).1, hc.calls.fired_of_active hco ha⟩
      · exact .inl hr

end State.Honest

theorem honest_init (channels : ℕ → ℕ) : (State.init channels).Honest :=
  ⟨nofun, fun k hlt => absurd hlt (Nat.not_lt_zero k), nofun⟩

/-- `decode` is about to read the response to the call: it reports no error, its body can
be parsed, and the task of the call waits for it. -/
def State.answersWell (s : State) (k : ℕ) : Bool :=
  match (s.tasks k).request with
  | .answered c f => (s.tasks k).place = .waitResult c && f.errorCode = 0 && f.parsable
  | _ => false

theorem answersWell_of_parsed {s s' : State} (h : s.Coherent) {a : Action}
    (hs : s.step a = some s') {k : ℕ} (hk : (s.tasks k).parsed = false)
    (hk' : (s'.tasks k).parsed = true) :
    a = .client (.decode k) ∧ s.answersWell k = true := by
  cases a with
  | env a =>
    have hp := ((envStep_frame hs).tasks k).parsed hk'
    rw [hk] at hp
    cases hp
  | client a =>
    obtain ⟨j, c, f, rfl, hreq, hopen, hplace, hco, hexp, hcode, hparse⟩ :=
      ((clientStep_frame hs).tasks k).parsed hk' hk
    obtain rfl := h.calls.call_of_frame hplace hreq hopen hco hexp
    refine ⟨rfl, ?_⟩
    simp [State.answersWell, hreq, hplace, hcode, hparse]

/-- **No false success**, in every run whose connection attempts report their errors to the calls
with a time-out that wait for them. -/
theorem success_of_returned (channels : ℕ → ℕ) (actions : List Action) (s : State)
    (h : run (restrict reportsErrno State.step) (State.init channels) actions = some s) (k : ℕ)
    (hk : s.returned k = true) (hc : (s.tasks k).channel ≠ none)
    (hf : (s.tasks k).controller.failed = false) :
    ∃ pre post s₀, actions = pre ++ .client (.decode k) :: post ∧
      run (restrict reportsErrno State.step) (State.init channels) pre = some s₀ ∧
      s₀.answersWell k = true := by
  have hcoherent : ∀ {as t}, run (restrict reportsErrno State.step) (State.init channels) as =
      some t → t.Coherent := fun ht => run_restrict_invariant
    (fun _ _ _ hI _ hs => hI.step hs) (coherent_init channels) ht
  have hhonest : s.Coherent ∧ s.Honest :=
    run_restrict_invariant (I := fun s => s.Coherent ∧ s.Honest)
      (fun s a s' hI hok hs => ⟨hI.1.step hs, hI.2.step hI.1 hok hs⟩)
      ⟨coherent_init channels, honest_init channels⟩ h
  -- a caller that is told and did not fail has its response parsed
  have hparsed : (s.tasks k).parsed = true :=
    ((hhonest.2.returned k hk).2 hc).resolve_left (by rw [hf]; decide)
  obtain ⟨pre, a, post, t, t', rfl, hpre, hstep, hnot, hyes⟩ :=
    exists_step_of_run (P := fun t : State => (t.tasks k).parsed = true) (by nofun) h hparsed
  obtain ⟨rfl, hwell⟩ := answersWell_of_parsed (hcoherent hpre) (restrict_eq_some.1 hstep).2
    (Bool.eq_false_iff.2 hnot) hyes
  exact ⟨pre, post, t, rfl, hpre, hwell⟩

def answeredCall : List Action :=
  [.env (.startCoroutine 0 1), .env (.callMethod 1 0 5), .client (.takeTask 0 7 false),
    .client .takeConnectionTask, .client (.connectDone .established), .client (.drainTask 0 false),
    .client .drainDone, .client (.respond 0 ⟨0, [1], true⟩), .client (.lockMap 7),
    .client (.decode 0), .env (.resumeCall 0), .env (.resumeCo 1 false)]

theorem success_of_answeredCall : ∃ pre post s₀, answeredCall = pre ++ .client (.decode 0) :: post ∧
      run (restrict reportsErrno State.step) (State.init fun _ => 1) pre = some s₀ ∧
      s₀.answersWell 0 = true :=
  success_of_returned (fun _ => 1) answeredCall
    ((run (restrict reportsErrno State.step) (State.init fun _ => 1) answeredCall).get
      (by decide +kernel))
    (Option.some_get _).symm 0 (by decide +kernel) (by decide +kernel) (by decide +kernel)

/-- A call with a time-out waits for a connection; `connect` is in progress, and
`getsockopt` then reports that it was refused. -/
def refusedLater : List Action :=
  [.env (.startCoroutine 0 1), .env (.callMethod 1 0 5), .client (.takeTask 0 7 false),
    .client .takeConnectionTask, .client (.connectDone (.socketError 111)), .env (.resumeCall 0),
    .env (.resumeCo 1 false)]

/-- **The error of the connection is lost:** the call of `refusedLater` returns without an
error though nothing was decoded. -/
theorem call_not_failed : ∃ s,
    run State.step (State.init fun _ => 1) refusedLater = some s ∧ s.returned 0 = true ∧
      (s.tasks 0).channel ≠ none ∧ (s.tasks 0).controller.failed = false ∧
      ∀ k, Action.client (.decode k) ∉ refusedLater := by
  refine exists_run_of_imp (P := fun s => s.returned 0 = true ∧ (s.tasks 0).channel ≠ none ∧
    (s.tasks 0).controller.failed = false) (by decide +kernel)
    fun s _ ⟨hret, hchannel, hfailed⟩ => ⟨hret, hchannel, hfailed, fun k => ?_⟩
  simp [refusedLater]

end Corpc.Rpc
