/-
# The request of a call that returned

`RpcClientTask` has a pointer to the request, which belongs to the caller of `CallMethod`.
`RpcClient::encode` reads it in the thread of the sender, so it has to do so before the call
returns.
-/

import Corpc.Rpc.CallsKept
import Corpc.Rpc.OneWay

namespace Corpc.Rpc

open Corpc.Basis Io Function List Option Bool

namespace State

variable {s s' : State} {k : ℕ}

def messaged (s : State) (k : ℕ) : Prop :=
  (s.tasks k).place = .resumed ∨ ∃ err w, (s.tasks k).place = .waitResume err w

def isOver (s : State) (k : ℕ) : Prop := s.fired k = true ∨ s.messaged k

theorem fired_of_env (h : s.Calls) {a : EnvAction} (hs : s.envStep a = some s')
    (hk : k < s.next) : s'.fired k = s.fired k ∨
      s'.fired k = true ∧ (a = .timeout k ∨ s.messaged k) := by
  cases envStep_step hs with
  | tick | startCoroutine | endCoroutine | mutexPost | resumeMutex | again | leave =>
    exact .inl rfl
  | callMethod =>
    obtain ⟨st, t, hi⟩ := Calls.issued_of_callMethod hs
    exact .inl (hi.fired_of_ne hk.ne)
  | park | push =>
    obtain ⟨st, t, hi⟩ := Calls.issued_of_innerCallMethod hs
    exact .inl (hi.fired_of_ne hk.ne)
  | @resumeCall j _ hs =>
    have hsettles := h.settles_of_resumeCall hs
    by_cases hkj : k = j
    · subst hkj
      obtain ⟨err, w, hplace, -⟩ := resumeCall_spec hs
      exact .inr ⟨hsettles.fired, .inr (.inr ⟨err, w, hplace⟩)⟩
    · exact .inl (hsettles.fired_of_ne hkj)
  | @timeout j =>
    have hsettles := h.settles_of_timeout hs
    by_cases hkj : k = j
    · subst hkj
      exact .inr ⟨hsettles.fired, .inl rfl⟩
    · exact .inl (hsettles.fired_of_ne hkj)
  | @acquire co j _ hco =>
    have hpushing : (s.tasks j).place = .pushing := h.parked co j hco
    refine .inl ((Calls.fired_move (p := .requestQueue) (fun hres => ?_) nofun k).trans rfl)
    exact absurd (hpushing.symm.trans hres) nofun

theorem returned_of_env (h : s.Calls) {a : EnvAction} (hs : s.envStep a = some s')
    (hr : s'.returned k = true) : s.returned k = true ∨ k < s.next ∧ s.fired k = true := by
  cases envStep_step hs with
  | @leave co j _ ha hco =>
    simp only [update_apply] at hr
    split_ifs at hr with hkj
    · subst hkj
      exact .inr ⟨(h.call co k (by rw [hco]; rfl)).1, h.fired_of_active hco ha⟩
    · exact .inl hr
  | resumeCall hs => exact .inl ((h.settles_of_resumeCall hs).frame.2.2.2.2.2.2 ▸ hr)
  | _ => exact .inl hr

theorem returned_of_step (h : s.Calls)
    (hret : ∀ k, s.returned k = true → k < s.next ∧ s.fired k = true) {a : Action}
    (hs : s.step a = some s') :
    s.next ≤ s'.next ∧ ∀ k, s'.returned k = true → k < s'.next ∧ s'.fired k = true := by
  cases a with
  | client a =>
    have hf := clientStep_frame hs
    have hnext : s'.next = s.next := congrArg Environment.next hf.env
    refine ⟨hnext.ge, fun k hr => ?_⟩
    obtain ⟨hlt, hfired⟩ := hret k (congrArg Environment.returned hf.env ▸ hr)
    exact ⟨hnext ▸ hlt, (Calls.fired_of_client hf).trans hfired⟩
  | env a =>
    have hnext := (envStep_frame hs).next
    refine ⟨hnext, fun k hr => ?_⟩
    have hold : k < s.next ∧ s.fired k = true := (returned_of_env h hs hr).elim (hret k) id
    refine ⟨hold.1.trans_le hnext, ?_⟩
    rcases fired_of_env h hs hold.1 with he | ⟨he, -⟩
    · exact he.trans hold.2
    · exact he

/-- **How a call comes to be over**: by its time-out, with its request not sent or answered, or
as its connection is cleared. -/
theorem isOver_of_step (h : s.Coherent) {a : Action} (hs : s.step a = some s') (hk : s'.isOver k) :
    s.isOver k ∨ a = .env (.timeout k) ∨ (s.tasks k).request = .unsent ∨
      (∃ c f, (s.tasks k).request = .answered c f) ∨
      ∃ c, (s.tasks k).place = .waitResult c ∧ s.connection = .closing c := by
  cases a with
  | env a =>
    by_cases hlt : k < s.next
    · rcases hk with hf | hm
      · rcases fired_of_env h.calls hs hlt with he | ⟨-, rfl | hm⟩
        · exact .inl (.inl (he.symm.trans hf))
        · exact .inr (.inl rfl)
        · exact .inl (.inr hm)
      · refine .inl (.inr ?_)
        have hmove := (envStep_frame hs).tasks k
        unfold messaged at hm
        generalize s'.tasks k = t at hmove hm
        cases hmove with
        | stay => exact hm
        | resume _ hp => exact .inr ⟨_, _, hp⟩
        | push =>
          rcases hm with hm | ⟨err, w, hm⟩ <;> cases hm
        | make hn => exact absurd hn hlt.ne
    · exact .inl (.inr (.inl (h.kinds.fresh k (Nat.le_of_not_lt hlt))))
  | client a =>
    have hf := clientStep_frame hs
    have hwired := h.calls.wired k
    rcases hk with hfired | hm
    · exact .inl (.inl ((Calls.fired_of_client hf).symm.trans hfired))
    · have hmove := hf.tasks k
      unfold messaged at hm
      generalize s'.tasks k = t at hmove hm
      cases hmove with
      | stay | answer | miss => exact .inl (.inr hm)
      | refuse hp
      | expire hp | serve _ _ hp => exact .inr (.inr (.inl (hwired.unsent (by rw [hp]; rfl))))
      | clear hp hc => exact .inr (.inr (.inr (.inr ⟨_, hp, hc⟩)))
      | complete hp _ hj hopen hco hexp =>
        obtain rfl := h.calls.call_of_frame hp hj hopen hco hexp
        exact .inr (.inr (.inr (.inl ⟨_, _, hj⟩)))
      | _ => rcases hm with hm | ⟨err, w, hm⟩ <;> cases hm

theorem candidate_beforeSend {a : Action} (hs : s.step a = some s')
    (hc : s.candidate a = some k) : (s.tasks k).place.beforeSend = true := by
  cases a with
  | env => cases hc
  | client a =>
    cases clientStep_step hs with
    | takeTask hp =>
      cases hc
      rw [hp]
      rfl
    | drainDrop _ hp | drainWait _ hp | drainSubmit _ hp =>
      cases hc
      rw [hp]
      rfl
    | lockTask hpc hp | drainLocked hpc hp =>
      simp only [candidate, hpc] at hc
      cases hc
      rw [hp]
      rfl
    | _ => cases hc

theorem request_submit (c j : ℕ) : ((s.submit k c).tasks j).request =
    if j = k then .sent c else (s.tasks j).request := by
  simp only [submit]
  split_ifs <;> rfl

theorem request_move (p : Place) (j : ℕ) :
    ((s.move k p).tasks j).request = (s.tasks j).request := by
  rw [tasks_move]

theorem request_failAll (p : Place) (err j : ℕ) :
    ((s.failAll p err).tasks j).request = (s.tasks j).request := by
  simp only [failAll, RpcClientTask.resumeFailed]
  split_ifs <;> rfl

inductive RequestMove (a : Action) (s s' : State) (k : ℕ) : Prop where
  | stay (h : (s'.tasks k).request = (s.tasks k).request)
  | make (hk : s.next ≤ k) (h : (s'.tasks k).request = .unsent)
  | submit (c : ℕ) (hc : s.submission s' a = some (k, c)) (h : (s'.tasks k).request = .sent c)
  | answer (c : ℕ) (f : Frame) (ha : a = .client (.respond k f))
      (hk : (s.tasks k).request = .sent c) (h : (s'.tasks k).request = .answered c f)
  | read (c : ℕ) (f : Frame) (hk : (s.tasks k).request = .answered c f)
      (h : (s'.tasks k).request = .decoded)

theorem RequestMove.ofSubmit {a : Action} (s₁ : State) (j c : ℕ) (hc : s.candidate a = some j)
    (htasks : s₁.tasks = s.tasks) (hs' : s'.tasks = (s₁.submit j c).tasks) (k : ℕ) :
    RequestMove a s s' k := by
  have hreq : ∀ i, (s'.tasks i).request = if i = j then .sent c else (s.tasks i).request := by
    intro i
    rw [hs', request_submit, htasks]
  by_cases hk : k = j
  · subst hk
    have hsent : (s'.tasks k).request = .sent c := (hreq k).trans (if_pos rfl)
    refine .submit c ?_ hsent
    simp only [submission, hc, bind_some, hsent]
  · exact .stay ((hreq k).trans (if_neg hk))

theorem RequestMove.ofMove {a : Action} (s₁ : State) (j : ℕ) (p : Place)
    (htasks : s₁.tasks = s.tasks) (hs' : s'.tasks = (s₁.move j p).tasks) (k : ℕ) :
    RequestMove a s s' k := by
  refine .stay ?_
  rw [hs', request_move, htasks]

theorem RequestMove.ofRead {a : Action} {j c : ℕ} {f : Frame}
    (hreq : (s.tasks j).request = .answered c f)
    (h : (s'.tasks k).request = if k = j then .decoded else (s.tasks k).request) :
    RequestMove a s s' k := by
  split_ifs at h with hk
  · subst hk
    exact .read c f hreq h
  · exact .stay h

theorem request_of_step {a : Action} (hs : s.step a = some s') (k : ℕ) : RequestMove a s s' k := by
  cases a with
  | env a =>
    have hmove := (envStep_frame hs).tasks k
    generalize ht : s'.tasks k = t at hmove
    cases hmove with
    | stay | resume | push =>
      refine .stay ?_
      rw [ht]
    | make hn _ hu =>
      refine .make hn.ge ?_
      rw [ht]
      exact hu.1
  | client a =>
    cases clientStep_step hs with
    | @takeTask j _ _ _ r _ _ _ hr hs =>
      have htasks := (getNextConnection_frame hr).2
      cases hs with
      | queue => exact .ofMove r.1 j (.waitSend r.2) htasks (by rfl) k
      | drop => exact .ofMove r.1 j .dropped htasks (by rfl) k
      | wait => exact .ofMove r.1 j (.taskHandle r.2) htasks (by rfl) k
      | submit => exact .ofSubmit r.1 j r.2 rfl htasks (by rfl) k
    | @lockTask j c hpc | @drainLocked j c hpc =>
      exact .ofSubmit s j c (by simp [candidate, hpc]) rfl (by rfl) k
    | @drainDrop j => exact .ofMove s j .dropped rfl (by rfl) k
    | @drainWait j c => exact .ofMove s j (.draining c) rfl (by rfl) k
    | @drainSubmit j c => exact .ofSubmit s j c rfl rfl (by rfl) k
    | clear | refuse => exact .stay (request_failAll _ _ k)
    | @miss j c f hreq => exact .ofRead hreq (tasks_readFrame j c k ▸ rfl)
    | @complete j i c f t hreq _ _ _ _ ht =>
      refine .ofRead hreq ?_
      rw [tasks_modify]
      split_ifs with hk hj hj
      · rw [(complete_spec ht).2.2, tasks_readFrame, ← hk, if_pos hj]
      · rw [(complete_spec ht).2.2, tasks_readFrame, ← hk, if_neg hj]
      · rw [tasks_readFrame, if_pos hj]
      · rw [tasks_readFrame, if_neg hj]
    | @respond j c f hj =>
      by_cases hk : k = j
      · subst hk
        exact .answer c f rfl hj (by rw [tasks_modify, if_pos rfl])
      · exact .stay (by rw [tasks_modify, if_neg hk])
    | @expire j | @accept j => exact .ofMove s j _ rfl (by rfl) k
    | serve =>
      refine .stay ?_
      rw [tasks_modify]
      split_ifs with hk
      · rw [hk]
      · rw [hk]
      · rfl
    | _ => exact .stay rfl

theorem submission_spec (h : s.Coherent) {a : Action} (hs : s.step a = some s') {c : ℕ}
    (hc : s.submission s' a = some (k, c)) : k < s.next ∧ (s.tasks k).request = .unsent ∧
      (s'.tasks k).request = .sent c ∧ ¬s'.messaged k ∧ s'.fired k = s.fired k := by
  obtain ⟨j, hj, hsent⟩ := bind_eq_some_iff.1 hc
  split at hsent
  · rename_i d hd
    cases hsent
    have hbefore := candidate_beforeSend hs hj
    have hunsent := (h.calls.wired k).unsent hbefore
    have hlt : k < s.next := by
      refine h.kinds.lt_next fun hp => ?_
      rw [hp] at hbefore
      cases hbefore
    cases a with
    | env => cases hj
    | client a =>
      have hf := clientStep_frame hs
      refine ⟨hlt, hunsent, hd, fun hm => ?_, Calls.fired_of_client hf⟩
      have hmove := hf.tasks k
      unfold messaged at hm
      generalize s'.tasks k = t at hmove hm hd
      cases hmove with
      | submit => rcases hm with hm | ⟨err, w, hm⟩ <;> cases hm
      | answer | miss => cases hd
      | complete hp _ _ _ _ _ ht =>
        rw [hp] at hbefore
        cases hbefore
      | _ => exact absurd (hunsent.symm.trans hd) nofun
  · cases hsent

end State

namespace Net

def unencoded (s : Net) (c k : ℕ) : Prop :=
  .call k ∈ (s.io c).conn.datas ∨ .call k ∈ items (s.io c).conn.queue

instance (s : Net) (c k : ℕ) : Decidable (s.unencoded c k) :=
  inferInstanceAs (Decidable (_ ∨ _))

/-- The items whose request `encode` reads in an action of the IO: those that it encodes, and
the next one, for which there is no space. -/
def reads (s : Net) (c : ℕ) : Io.Action Item → List Item
  | .downflow n _ | .downflowFails n => (s.io c).conn.datas.take (n + 1)
  | _ => []

/-- A call does not expire while its task is with a sender that may encode it, and the task of a
call that expired is not given to a sender. -/
def keepsRequests (s : Net) : NetAction → Bool
  | .rpc (.env (.timeout k)) =>
    match (s.rpc.tasks k).request with
    | .sent c => (s.io c).conn.sender.out || !s.unencoded c k
    | _ => true
  | .rpc a =>
    match (s.rpc.step a).bind (s.rpc.submission · a) with
    | some (k, _) => !s.rpc.fired k
    | none => true
  | _ => true

structure Guarded (s : Net) : Prop where
  coherent : s.rpc.Coherent
  known : ∀ k c, .call k ∈ items (s.io c).tasks → k < s.rpc.next
  /-- a task is given to one sender, once -/
  given : ∀ k c, (items (s.io c).tasks).count (.call k) ≤ 1
  one : ∀ k c d, .call k ∈ items (s.io c).tasks → .call k ∈ items (s.io d).tasks → c = d
  unsent : ∀ k c, (s.rpc.tasks k).request = .unsent → .call k ∉ items (s.io c).tasks
  sent : ∀ k c, (s.rpc.tasks k).request = .sent c → .call k ∈ items (s.io c).tasks
  /-- the server answers what was encoded -/
  answered : ∀ k c, (s.rpc.tasks k).request = .decoded ∨
    (∃ d f, (s.rpc.tasks k).request = .answered d f) → ¬s.unencoded c k
  isOver : ∀ k c, s.rpc.isOver k → s.unencoded c k → (s.io c).conn.sender.out = true
  returned : ∀ k, s.rpc.returned k = true → k < s.rpc.next ∧ s.rpc.fired k = true

namespace Guarded

variable {s s' : Net}

theorem mem_of_unencoded (ho : s.Once) {k c : ℕ} (hu : s.unencoded c k) :
    .call k ∈ items (s.io c).tasks := by
  rw [(ho.io c).fates]
  rcases hu with hu | hu <;> simp [hu]

theorem not_unencoded (h : s.Guarded) (ho : s.Once) {k c : ℕ} (he : .call k ∈ (s.io c).encoded)
    (d : ℕ) : ¬s.unencoded d k := by
  intro hu
  have hc : .call k ∈ items (s.io c).tasks := by
    rw [(ho.io c).fates]
    simp [he]
  obtain rfl := h.one k c d hc (mem_of_unencoded ho hu)
  have hcount := h.given k c
  rw [(ho.io c).fates] at hcount
  simp only [count_append] at hcount
  have hpos := count_pos_iff.2 he
  rcases hu with hu | hu
  · have hin := count_pos_iff.2 hu
    omega
  · have hin := count_pos_iff.2 hu
    omega

theorem sentOn (h : s.Guarded) (ho : s.Once) {k c : ℕ} (hu : s.unencoded c k) :
    (s.rpc.tasks k).request = .sent c := by
  have hmem := mem_of_unencoded ho hu
  cases hr : (s.rpc.tasks k).request with
  | unsent => exact absurd hmem (h.unsent k c hr)
  | sent d => rw [h.one k c d hmem (h.sent k d hr)]
  | answered d f => exact absurd hu (h.answered k c (.inr ⟨d, f, hr⟩))
  | decoded => exact absurd hu (h.answered k c (.inl hr))

theorem ofIo (h : s.Guarded) (ho : ∀ c, (s.io c).Sound) {c : ℕ} {a : Io.Action Item}
    (ha : ∀ k, a ≠ .send (.call k)) (hs : s.ioStep c a = some s') : s'.Guarded := by
  obtain ⟨d, hd, rfl⟩ := map_eq_some_iff.1 hs
  obtain ⟨-, htasks, hencoded, hcleaned⟩ := Delivery.step_eq hd
  have hio : ∀ e, update s.io c d e = s.io e ∨ e = c ∧ update s.io c d e = d := by
    intro e
    by_cases hec : e = c
    · rw [hec]
      exact .inr ⟨rfl, update_self ..⟩
    · exact .inl (update_of_ne hec ..)
  have hcount : ∀ k, (items d.tasks).count (.call k) = (items (s.io c).tasks).count (.call k) := by
    intro k
    rw [htasks, items_append, count_append, Once.count_queued (ha k), Nat.add_zero]
  -- the tasks of calls are those from before, and fewer of them are unencoded
  have htask : ∀ k e, (items (update s.io c d e).tasks).count (.call k) =
      (items (s.io e).tasks).count (.call k) := by
    intro k e
    rcases hio e with he | ⟨rfl, he⟩
    · rw [he]
    · rw [he, hcount]
  have hmem : ∀ k e, .call k ∈ items (update s.io c d e).tasks ↔
      .call k ∈ items (s.io e).tasks := by
    intro k e
    rw [← count_pos_iff, htask, count_pos_iff]
  have hunencoded : ∀ k e, (.call k ∈ (update s.io c d e).conn.datas ∨
      .call k ∈ items (update s.io c d e).conn.queue) → s.unencoded e k := by
    intro k e hu
    rcases hio e with he | ⟨rfl, he⟩
    · rwa [he] at hu
    · rw [he] at hu
      have hnew := congrArg (List.count (Item.call k)) ((ho e).step hd).fates
      have hold := congrArg (List.count (Item.call k)) (ho e).fates
      rw [hencoded, hcleaned, hcount] at hnew
      simp only [count_append] at hnew hold
      by_contra hne
      obtain ⟨hdatas, hqueue⟩ := not_or.1 hne
      rw [← count_eq_zero] at hdatas hqueue
      rcases hu with hu | hu
      · have hin := count_pos_iff.2 hu
        omega
      · have hin := count_pos_iff.2 hu
        omega
  refine ⟨h.coherent, fun k e hm => ?_, fun k e => ?_, fun k e e' hm hm' => ?_, fun k e hr => ?_,
    fun k e hr => ?_, fun k e hr hu => ?_, fun k e hover hu => ?_, h.returned⟩
  · exact h.known k e ((hmem k e).1 hm)
  · exact (htask k e).trans_le (h.given k e)
  · exact h.one k e e' ((hmem k e).1 hm) ((hmem k e').1 hm')
  · exact fun hm => h.unsent k e hr ((hmem k e).1 hm)
  · exact (hmem k e).2 (h.sent k e hr)
  · exact h.answered k e hr (hunencoded k e hu)
  · have hout := h.isOver k e hover (hunencoded k e hu)
    simp only [runDone]
    rcases hio e with he | ⟨rfl, he⟩
    · rw [he]
      exact hout
    · rw [he]
      exact (ho e).out_step hout hd

section Step

variable {a : Action}

theorem out_of_over (h : s.Guarded) (ho : s.Once) {rpc : State} (hs : s.rpc.step a = some rpc)
    (htimeout : ∀ k c, a = .env (.timeout k) → (s.rpc.tasks k).request = .sent c →
      (s.io c).conn.sender.out = true ∨ ¬s.unencoded c k) {k c : ℕ} (hover : rpc.isOver k)
    (hu : s.unencoded c k) : (s.io c).conn.sender.out = true := by
  have hsent := h.sentOn ho hu
  rcases State.isOver_of_step h.coherent hs hover with
    hold | ha | hunsent | ⟨d, f, hanswered⟩ | ⟨d, hp, hclosing⟩
  · exact h.isOver k c hold hu
  · exact (htimeout k c ha hsent).resolve_right fun hno => hno hu
  · rw [hsent] at hunsent
    cases hunsent
  · rw [hsent] at hanswered
    cases hanswered
  · have hdc : c = d :=
      (h.coherent.calls.wired k).sent d hp c (by rw [hsent]; exact decide_eq_true rfl)
    rw [hdc, ho.ended d (ho.client.ended d (.inr hclosing))]
    rfl

theorem returned_of_step (h : s.Guarded) {rpc : State} (hs : s.rpc.step a = some rpc) :
    s.rpc.next ≤ rpc.next ∧ ∀ k, rpc.returned k = true → k < rpc.next ∧ rpc.fired k = true :=
  State.returned_of_step h.coherent.calls h.returned hs

/-- **An action of the client**, which may give the task of a call to a sender. -/
theorem ofStep (h : s.Guarded) (ho : s.Once) (hs : s.rpc.step a = some s'.rpc)
    (hcount : ∀ k c, (items (s'.io c).tasks).count (.call k) =
      (items (s.io c).tasks).count (.call k) +
        if s.rpc.submission s'.rpc a = some (k, c) then 1 else 0)
    (hunencoded : ∀ k c, s'.unencoded c k →
      s.unencoded c k ∨ s.rpc.submission s'.rpc a = some (k, c))
    (hout : ∀ c, (s.io c).conn.sender.out = true → (s'.io c).conn.sender.out = true)
    (htimeout : ∀ k c, a = .env (.timeout k) → (s.rpc.tasks k).request = .sent c →
      (s.io c).conn.sender.out = true ∨ ¬s.unencoded c k)
    (hfired : ∀ k c, s.rpc.submission s'.rpc a = some (k, c) → s.rpc.fired k = false)
    (hrespond : ∀ k f c, a = .client (.respond k f) → (s.rpc.tasks k).request = .sent c →
      .call k ∈ (s.io c).encoded) : s'.Guarded := by
  obtain ⟨hnext, hreturned⟩ := h.returned_of_step hs
  have hspec := fun k c => State.submission_spec (k := k) (c := c) h.coherent hs
  -- a task is with a sender from before, or is given to it now
  have hmem : ∀ k c, .call k ∈ items (s'.io c).tasks →
      .call k ∈ items (s.io c).tasks ∨ s.rpc.submission s'.rpc a = some (k, c) := by
    intro k c hm
    rw [← count_pos_iff, hcount] at hm
    split_ifs at hm with hsub
    · exact .inr hsub
    · exact .inl (count_pos_iff.1 hm)
  have hkeep : ∀ k c, .call k ∈ items (s.io c).tasks → .call k ∈ items (s'.io c).tasks := by
    intro k c hm
    rw [← count_pos_iff] at hm ⊢
    rw [hcount]
    omega
  refine ⟨h.coherent.step hs, fun k c hm => ?_, fun k c => ?_, fun k c d hc hd => ?_,
    fun k c hr hm => ?_, fun k c hr => ?_, fun k c hr hu => ?_, fun k c hover hu => ?_, hreturned⟩
  · rcases hmem k c hm with hm | hsub
    · exact (h.known k c hm).trans_le hnext
    · exact (hspec k c hsub).1.trans_le hnext
  · rw [hcount]
    split_ifs with hsub
    · have hnone := h.unsent k c (hspec k c hsub).2.1
      rw [← count_eq_zero] at hnone
      omega
    · exact h.given k c
  · rcases hmem k c hc with hc | hsub
    · rcases hmem k d hd with hd | hsub
      · exact h.one k c d hc hd
      · exact absurd hc (h.unsent k c (hspec k d hsub).2.1)
    · rcases hmem k d hd with hd | hsub'
      · exact absurd hd (h.unsent k d (hspec k c hsub).2.1)
      · rw [hsub] at hsub'
        cases hsub'
        rfl
  · rcases hmem k c hm with hm | hsub
    · cases State.request_of_step hs k with
      | stay he => exact h.unsent k c (he.symm.trans hr) hm
      | make hk _ => exact absurd (h.known k c hm) (Nat.not_lt.2 hk)
      | submit d _ he | answer d f _ _ he | read d f _ he => cases he.symm.trans hr
    · cases (hspec k c hsub).2.2.1.symm.trans hr
  · cases State.request_of_step hs k with
    | stay he => exact hkeep k c (h.sent k c (he.symm.trans hr))
    | make _ he | answer d f _ _ he | read d f _ he => cases he.symm.trans hr
    | submit d hsub he =>
      cases he.symm.trans hr
      rw [← count_pos_iff, hcount, if_pos hsub]
      omega
  · have hsub : s.rpc.submission s'.rpc a ≠ some (k, c) := by
      intro hsub
      have hsent := (hspec k c hsub).2.2.1
      rcases hr with hr | ⟨d, f, hr⟩ <;> cases hsent.symm.trans hr
    have hu := (hunencoded k c hu).resolve_right hsub
    cases State.request_of_step hs k with
    | stay he => exact h.answered k c (by rwa [he] at hr) hu
    | make _ he => rcases hr with hr | ⟨d, f, hr⟩ <;> cases he.symm.trans hr
    | submit d _ he => rcases hr with hr | ⟨e, f, hr⟩ <;> cases he.symm.trans hr
    | answer d f ha hk _ => exact h.not_unencoded ho (hrespond k f d ha hk) c hu
    | read d f hk _ => exact h.answered k c (.inr ⟨d, f, hk⟩) hu
  · rcases hunencoded k c hu with hu | hsub
    · exact hout c (h.out_of_over ho hs htimeout hover hu)
    · obtain ⟨-, -, -, hmessage, he⟩ := hspec k c hsub
      have hfire := hover.resolve_right hmessage
      rw [he, hfired k c hsub] at hfire
      cases hfire

theorem fired_of_submission (hok : s.keepsRequests (.rpc a) = true) {rpc : State}
    (hs : s.rpc.step a = some rpc) {k c : ℕ} (hsub : s.rpc.submission rpc a = some (k, c)) :
    s.rpc.fired k = false := by
  unfold keepsRequests at hok
  split at hok
  · rename_i heq
    cases heq
    cases hsub
  · rename_i heq
    cases heq
    simp only [hs, bind_some, hsub, not_eq_true'] at hok
    exact hok
  · rename_i hne
    exact absurd rfl (hne a)

theorem timeout_of_ok (hok : s.keepsRequests (.rpc a) = true) {k c : ℕ}
    (ha : a = .env (.timeout k)) (hsent : (s.rpc.tasks k).request = .sent c) :
    (s.io c).conn.sender.out = true ∨ ¬s.unencoded c k := by
  subst ha
  simp only [keepsRequests, hsent, or_eq_true, not_eq_true', decide_eq_false_iff_not]
    at hok
  exact hok

theorem rpcStep (h : s.Guarded) (ho : s.Once) (hok : s.keepsRequests (.rpc a) = true)
    (hrespond : ∀ k f c, a = .client (.respond k f) → (s.rpc.tasks k).request = .sent c →
      .call k ∈ (s.io c).encoded) (hs : s.rpcStep a = some s') : s'.Guarded := by
  obtain ⟨rpc, hrpc, hs⟩ := bind_eq_some_iff.1 hs
  have htimeout := fun k c => timeout_of_ok (k := k) (c := c) hok
  have hfired := fun k c => fired_of_submission (k := k) (c := c) hok hrpc
  split at hs
  · rename_i k c hsub
    obtain ⟨d, hd, rfl⟩ := map_eq_some_iff.1 hs
    obtain ⟨hconn, htasks, -, -⟩ := Delivery.step_eq hd
    obtain ⟨hqueue, hdatas, -, -, -⟩ := step_frame rfl hconn
    -- the sender gets the item, and nothing else happens to it
    have hio : ∀ e, update s.io c d e = s.io e ∧ e ≠ c ∨ e = c ∧ update s.io c d e = d := by
      intro e
      by_cases hec : e = c
      · rw [hec]
        exact .inr ⟨rfl, update_self ..⟩
      · exact .inl ⟨update_of_ne hec .., hec⟩
    refine h.ofStep ho (by exact hrpc) (fun j e => ?_) (fun j e hu => ?_) (fun e hout => ?_)
      htimeout hfired hrespond
    · show (items (update s.io c d e).tasks).count (.call j) = _ +
        if s.rpc.submission rpc a = some (j, e) then 1 else 0
      rw [hsub]
      rcases hio e with ⟨he, hne⟩ | ⟨rfl, he⟩
      · rw [he, if_neg (by simp [Ne.symm hne])]
        rfl
      · rw [he, htasks, items_append, count_append]
        show _ + List.count (Item.call j) [Item.call k] = _
        rw [count_singleton]
        simp
    · show s.unencoded e j ∨ s.rpc.submission rpc a = some (j, e)
      rw [hsub]
      replace hu : .call j ∈ (update s.io c d e).conn.datas ∨
        .call j ∈ items (update s.io c d e).conn.queue := hu
      rcases hio e with ⟨he, -⟩ | ⟨rfl, he⟩
      · rw [he] at hu
        exact .inl hu
      · rw [he, hdatas, hqueue, items_append, mem_append] at hu
        rcases hu with hu | hu | hu
        · exact .inl (.inl hu)
        · exact .inl (.inr hu)
        · cases mem_singleton.1 hu
          exact .inr rfl
    · show (update s.io c d e).conn.sender.out = true
      rcases hio e with ⟨he, -⟩ | ⟨rfl, he⟩
      · rw [he]
        exact hout
      · rw [he]
        exact (ho.io e).out_step hout hd
  · rename_i hsub
    cases hs
    refine h.ofStep ho (by exact hrpc) (fun j e => ?_) (fun j e hu => .inl hu) (fun e => id)
      htimeout hfired hrespond
    show _ = _ + if s.rpc.submission rpc a = some (j, e) then 1 else 0
    rw [hsub, if_neg nofun]
    rfl

end Step

theorem congr (h : s.Guarded) (hrpc : s'.rpc = s.rpc) (hio : s'.io = s.io) : s'.Guarded := by
  obtain ⟨rpc, io, _⟩ := s
  obtain ⟨rpc', io', _⟩ := s'
  cases hrpc
  cases hio
  exact { h with }

theorem getNextConnection (h : s.Guarded) {channel fresh : ℕ} {r : State × ℕ}
    (hr : s.rpc.getNextConnection channel fresh = some r) : { s with rpc := r.1 }.Guarded := by
  obtain ⟨henv, htasks⟩ := State.getNextConnection_frame hr
  have hframe : ClientFrame .lockTask s.rpc r.1 :=
    ⟨henv, State.ended_of_getNextConnection hr, fun k => by rw [htasks]; exact .stay⟩
  have hnext : r.1.next = s.rpc.next := congrArg Environment.next henv
  have hreturned : r.1.returned = s.rpc.returned := congrArg Environment.returned henv
  have hfired : ∀ k, r.1.fired k = s.rpc.fired k := fun k => State.Calls.fired_of_client hframe
  constructor
  · exact ⟨h.coherent.sound.getNextConnection hr, h.coherent.kinds.of_eq henv htasks,
      h.coherent.calls.client h.coherent.sound hframe⟩
  · intro k c hm
    exact hnext.symm ▸ h.known k c hm
  · exact h.given
  · exact h.one
  · intro k c hu
    exact h.unsent k c (htasks ▸ hu)
  · intro k c hsent
    exact h.sent k c (htasks ▸ hsent)
  · intro k c ha
    exact h.answered k c (htasks ▸ ha)
  · rintro k c (hf | hm)
    · exact h.isOver k c (.inl ((hfired k).symm.trans hf))
    · exact h.isOver k c (.inr (by rwa [State.messaged, htasks] at hm))
  · intro k hret
    rw [hreturned] at hret
    rw [hnext, hfired]
    exact h.returned k hret

theorem sound_of_ioStep {c : ℕ} {a : Io.Action Item} (ho : ∀ c, (s.io c).Sound)
    (hs : s.ioStep c a = some s') (e : ℕ) : (s'.io e).Sound := by
  obtain ⟨d, hd, rfl⟩ := map_eq_some_iff.1 hs
  simp only [runDone, update_apply]
  split_ifs
  · exact (ho c).step hd
  · exact ho e

theorem ofChange (h : s.Guarded) (ho : s.Once) {a : Action} (ha : a.changesConnections = true)
    {rpc : State} (hs : s.rpc.step a = some rpc) : { s with rpc }.Guarded := by
  have hsub : s.rpc.submission rpc a = none := by
    cases a with
    | env => cases ha
    | client a =>
      cases a with
      | takeConnectionTask | clearConnection | connectDone | drainDone | onClose => rfl
      | _ => cases ha
  refine h.ofStep ho (by exact hs) (fun k c => ?_) (fun k c hu => .inl hu) (fun c => id)
    (fun k c he => by cases he; cases ha) (fun k c he => ?_) fun k f c he => by cases he; cases ha
  · show _ = _ + if s.rpc.submission rpc a = some (k, c) then 1 else 0
    rw [hsub, if_neg nofun]
    rfl
  · replace he : s.rpc.submission rpc a = some (k, c) := he
    rw [hsub] at he
    cases he

theorem step (h : s.Guarded) (ho : s.Once) {a : NetAction} (hok : s.keepsRequests a = true)
    (hs : s.step a = some s') : s'.Guarded := by
  cases step_step hs with
  | rpc _ _ _ hrespond hs => exact h.rpcStep ho hok hrespond hs
  | takeConnectionTask hrpc | drainDone _ _ hrpc => exact h.ofChange ho rfl hrpc
  | clear _ hrpc | refuse _ _ hrpc => exact (h.ofChange ho rfl hrpc).congr rfl rfl
  | establish _ _ hrpc ht hs =>
    have hadded := (h.ofChange ho rfl hrpc).ofIo ho.io (by simp) ht
    exact hadded.ofIo (sound_of_ioStep (by exact ho.io) ht) (by simp) hs
  | onClose hrpc hs => exact (h.ofChange ho rfl hrpc).ofIo ho.io (by simp) hs
  | @clearChannel ch _ rpc _ hrpc =>
    have hstep : s.rpcStep (.client (.clearChannel ch)) = some { s with rpc } := by
      rw [Net.rpcStep, hrpc]
      rfl
    exact (h.rpcStep ho hok nofun hstep).congr rfl rfl
  | crash | oneWayCall | release => exact h.congr rfl rfl
  | wait _ _ hr => exact (h.getNextConnection (State.choose_spec hr).1).congr rfl rfl
  | @send k _ r _ _ _ hr _ hs =>
    have hmoved : ({ s with rpc := r.1 }.moveOneWay k (.sent r.2)).Guarded :=
      (h.getNextConnection (State.choose_spec hr).1).congr rfl rfl
    exact hmoved.ofIo ho.io (by simp) hs
  | @drain k c _ _ _ _ hs =>
    have hmoved : (s.moveOneWay k (.sent c)).Guarded := h.congr rfl rfl
    exact hmoved.ofIo ho.io (by simp) hs
  | io ha hs =>
    refine h.ofIo ho.io ?_ hs
    rintro k rfl
    cases ha

end Guarded

theorem loop_of_reads {s s' : Net} {c k : ℕ} {a : Io.Action Item}
    (hs : s.step (.io c a) = some s') (hk : .call k ∈ s.reads c a) :
    s.unencoded c k ∧ (s.io c).conn.sender = .loop := by
  unfold Net.step at hs
  split_ifs at hs
  dsimp only at hs
  split_ifs at hs
  obtain ⟨d, hd, -⟩ := map_eq_some_iff.1 hs
  have hconn := (Delivery.step_eq hd).1
  cases a with
  | downflow n rest =>
    refine ⟨.inl (mem_of_mem_take hk), ?_⟩
    by_contra hne
    simp [Io.Connection.step, Io.Connection.downflow, hne] at hconn
  | downflowFails n =>
    refine ⟨.inl (mem_of_mem_take hk), ?_⟩
    by_contra hne
    simp [Io.Connection.step, Io.Connection.downflowFails, hne] at hconn
  | _ => cases hk

theorem guarded_init (channels : ℕ → ℕ) : (init channels).Guarded where
  coherent := coherent_init channels
  known _ _ := nofun
  given _ _ := Nat.zero_le 1
  one _ _ _ := nofun
  unsent _ _ _ := nofun
  sent _ _ := nofun
  answered _ _ _ := by rintro (hu | hu) <;> cases hu
  isOver _ _ _ := by rintro (hu | hu) <;> cases hu
  returned _ := nofun

end Net

/-- **The request of a call is read before the call returns**, in every run in which no call expires
while its task is with a sender, and none is given to a sender after it was settled. -/
theorem request_read_in_time (channels : ℕ → ℕ) (actions : List NetAction) (s : Net)
    (h : run (restrict Net.keepsRequests Net.step) (Net.init channels) actions = some s)
    (c : ℕ) (a : Io.Action Item) (s' : Net) (hs : s.step (.io c a) = some s') (k : ℕ)
    (hk : .call k ∈ s.reads c a) : s.rpc.returned k = false := by
  obtain ⟨ho, hg⟩ : s.Once ∧ s.Guarded :=
    run_restrict_invariant (I := fun s => s.Once ∧ s.Guarded)
      (fun _ _ _ hI hok hs => ⟨hI.1.step hs, hI.2.step hI.1 hok hs⟩)
      ⟨Net.once_init channels, Net.guarded_init channels⟩ h
  by_contra hne
  have hover : s.rpc.isOver k := .inl (hg.returned k (not_eq_false _ ▸ hne)).2
  obtain ⟨hu, hloop⟩ := Net.loop_of_reads hs hk
  have hout := hg.isOver k c hover hu
  rw [hloop] at hout
  cases hout

def readInTime : List NetAction :=
  [.rpc (.env (.startCoroutine 0 0)), .rpc (.env (.callMethod 0 0 10)),
    .rpc (.client (.takeTask 0 0 false)), .rpc (.client .takeConnectionTask),
    .rpc (.client (.connectDone .established)), .rpc (.client (.drainTask 0 false)),
    .rpc (.client .drainDone), .io 0 .takeTask, .io 0 (.downflow 0 false), .io 0 .takeTask]

theorem request_read_readInTime : ∃ s s', run (restrict Net.keepsRequests Net.step)
      (Net.init fun _ => 1) readInTime = some s ∧ s.step (.io 0 (.downflow 1 false)) = some s' ∧
    .call 0 ∈ s.reads 0 (.downflow 1 false) ∧ s.rpc.returned 0 = false := by
  have hrun : (run (restrict Net.keepsRequests Net.step) (Net.init fun _ => 1) readInTime).map
      (fun s => decide ((s.step (.io 0 (.downflow 1 false))).isSome = true ∧
        .call 0 ∈ s.reads 0 (.downflow 1 false))) = some true := by
    decide +kernel
  obtain ⟨s, hs, hp⟩ := exists_of_run_map hrun
  obtain ⟨hstep, hmem⟩ := of_decide_eq_true hp
  obtain ⟨s', hs'⟩ := isSome_iff_exists.1 hstep
  exact ⟨s, s', hs, hs', hmem, request_read_in_time _ _ s hs 0 _ s' hs' 0 hmem⟩

/-- The sender thread is late: the call expires and returns while its task is in `datas_`. -/
def expiredInSender : List NetAction :=
  readInTime ++ [.rpc (.env (.tick 10)), .rpc (.env (.timeout 0)), .rpc (.env (.resumeCo 0 false))]

/-- **The request of a call that returned is read**: `encode` serialises it after `CallMethod`
returned by its time-out. -/
theorem request_read_after_return : ∃ s s', run Net.step (Net.init fun _ => 1) expiredInSender =
      some s ∧ s.step (.io 0 (.downflow 1 false)) = some s' ∧
    .call 0 ∈ s.reads 0 (.downflow 1 false) ∧ (s'.io 0).encoded = [.call 0] ∧
      s.rpc.returned 0 = true := by
  have hrun : (run Net.step (Net.init fun _ => 1) expiredInSender).map
      (fun s => decide ((s.step (.io 0 (.downflow 1 false))).map (fun t => (t.io 0).encoded) =
        some [.call 0] ∧ .call 0 ∈ s.reads 0 (.downflow 1 false) ∧ s.rpc.returned 0 = true)) =
      some true := by
    decide +kernel
  obtain ⟨s, hs, hp⟩ := exists_of_run_map hrun
  obtain ⟨hstep, hmem, hret⟩ := of_decide_eq_true hp
  obtain ⟨s', hs', he⟩ := map_eq_some_iff.1 hstep
  exact ⟨s, s', hs, hs', hmem, he, hret⟩

end Corpc.Rpc
