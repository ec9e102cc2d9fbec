/-
# Every action keeps the calls apart

The invariant `State.Calls` holds in every run: tasks are moved, a coroutine makes a call, the
message or the expiry of a call is handled, or a coroutine is resumed.
-/

import Corpc.Rpc.Calls

namespace Corpc.Rpc

open Function List Environment

theorem ClientMove.live {a : ClientAction} {s : State} {k : ℕ} {t : RpcClientTask}
    (h : ClientMove a s k t) (hl : t.place.live = true) : (s.tasks k).place.live = true := by
  cases h with
  | stay | answer | miss => exact hl
  | drop hp | replace hp => cases hl
  | submit c hp => cases hplace : (s.tasks k).place <;> rw [hplace] at hp <;> first | rfl | cases hp
  | queue c hp | handle c hp | drain hp | refuse hp | clear hp | complete hp | expire hp | accept hp
  | serve c c₁ hp => rw [hp]; rfl

theorem ClientMove.openOn {a : ClientAction} {s : State} {k d : ℕ} {t : RpcClientTask}
    (h : ClientMove a s k t) (ho : t.request.openOn d = true) :
    (s.tasks k).request.openOn d = true ∨ (s.tasks k).place.live = true := by
  cases h with
  | submit c hp =>
    refine .inr ?_
    cases hplace : (s.tasks k).place <;> rw [hplace] at hp <;> first | rfl | cases hp
  | answer f hr =>
    rw [hr]
    exact .inl ho
  | miss hr => cases ho
  | complete hp => exact .inr (by rw [hp]; rfl)
  | _ => exact .inl ho

namespace State.Calls

variable {a : ClientAction} {s s' : State} {j k c co : ℕ}

theorem pending_of_client (hf : ClientFrame a s s') (hk : s'.pending k) : s.pending k := by
  rcases hk with hl | ⟨d, ho, hd⟩
  · exact .inl ((hf.tasks k).live hl)
  · rcases (hf.tasks k).openOn ho with ho | hl
    · refine .inr ⟨d, ho, Bool.eq_false_iff.2 fun he => ?_⟩
      exact Bool.eq_false_iff.1 hd (hf.ended d he)
    · exact .inl hl

theorem awaits_iff_of_client (hf : ClientFrame a s s') : s'.awaits k ↔ s.awaits k := by
  unfold awaits
  rw [(hf.tasks k).const.2.1, show s'.cos = s.cos from congrArg cos hf.env]

theorem fired_of_client (hf : ClientFrame a s s') : s'.fired k = s.fired k := by
  unfold fired
  rw [(hf.tasks k).timed, show s'.timeoutList = s.timeoutList from
    congrArg timeoutList hf.env]
  simp only [(hf.tasks k).resumed]

theorem owed_of_client (hf : ClientFrame a s s') : s'.owed co = s.owed co := by
  unfold owed
  rw [show s'.cos = s.cos from congrArg cos hf.env]
  cases s.cos co <;> simp only [fired_of_client hf]

theorem wired_of_client (h : s.Calls) (hs : s.toClient.Sound) (hf : ClientFrame a s s') (k : ℕ) :
    Wired s'.conns k (s'.tasks k) := by
  have hw := h.wired k
  have hmove := hf.tasks k
  have hended := hf.ended
  generalize s'.tasks k = t at hmove ⊢
  cases hmove with
  | stay => exact ⟨hw.unsent, hw.sent, fun hp c hc => hended c (hw.closed hp c hc), hw.owned⟩
  | queue c hp | handle c hp | drain hp
  | accept hp => exact wired_of_unsent (hw.unsent (by rw [hp]; rfl)) nofun
  | drop hp =>
    refine wired_of_unsent (hw.unsent ?_) nofun
    rcases hp with hp | ⟨c, hp⟩ <;> rw [hp] <;> rfl
  | submit c hp =>
    refine ⟨nofun, fun d hd e he => ?_, fun hp => ?_, nofun⟩
    · cases hd
      exact (of_decide_eq_true he).symm
    · rcases hp with hp | ⟨_, _, hp⟩ <;> cases hp
  | replace hp =>
    refine ⟨nofun, nofun, fun hp => ?_, nofun⟩
    rcases hp with hp | ⟨_, _, hp⟩ <;> cases hp
  | refuse hp | expire hp | serve c c₁ hp =>
    refine wired_of_unsent (hw.unsent (by rw [hp]; rfl)) fun err w hk => ?_
    cases hk
    exact decide_eq_true rfl
  | @clear c hp hc =>
    refine ⟨nofun, nofun, fun _ d hd => ?_, fun err w hk => ?_⟩
    · -- the connection is closing, so its receiver has ended
      cases hw.sent c hp d hd
      exact hended _ (hs.ended _ (.inr hc))
    · cases hk
      exact decide_eq_true rfl
  | @answer c f hr =>
    refine ⟨fun hp => ?_, fun d hd e he => ?_, fun hp d hd => ?_, hw.owned⟩
    · have := hw.unsent hp
      rw [hr] at this
      cases this
    · exact hw.sent d hd e (by rw [hr]; exact he)
    · exact hended d (hw.closed hp d (by rw [hr]; exact hd))
  | miss hr =>
    refine ⟨fun hp => ?_, fun d hd e he => ?_, fun hp d hd => ?_, hw.owned⟩
    · have := hw.unsent hp
      rw [hr] at this
      cases this
    · cases he
    · cases hd
  | complete hp _ hj hopen hco hexp ht =>
    obtain ⟨-, hplace, hreq⟩ := complete_spec ht
    have hkj := h.call_of_frame hp hj hopen hco hexp
    subst hkj
    rw [if_pos rfl] at hreq
    refine ⟨fun hb => ?_, fun d hd => ?_, fun _ d hd => ?_, fun err w hk => ?_⟩
    · rw [hplace] at hb
      cases hb
    · rw [hplace] at hd
      cases hd
    · rw [hreq] at hd
      cases hd
    · rw [hplace] at hk
      cases hk
      exact decide_eq_true rfl

theorem client (h : s.Calls) (hs : s.toClient.Sound) (hf : ClientFrame a s s') : s'.Calls := by
  have hcos : s'.cos = s.cos := congrArg cos hf.env
  have hlist : s'.timeoutList = s.timeoutList := congrArg timeoutList hf.env
  have hkeeps : Keeps s s' :=
    { next := congrArg next hf.env
      now := (congrArg now hf.env).ge
      const := fun j => ⟨(hf.tasks j).const.2.1, (hf.tasks j).const.2.2.2⟩
      pending := fun _ => pending_of_client hf
      call := fun co k hk => hcos ▸ hk
      stays := fun k hk _ => (awaits_iff_of_client hf).2 hk
      list := fun k hk => hlist ▸ hk
      nodup := hlist ▸ h.nodup
      expired := fun k _ hm hn => absurd (hlist ▸ hm) hn }
  refine hkeeps.calls h (fun co k hk => ?_) (fun k hk => ?_) (h.wired_of_client hs hf) fun co => ?_
  · exact ((hf.tasks k).place_iff (.inl rfl)).2 (h.parked co k (hcos ▸ hk))
  · rw [hcos, (hf.tasks k).const.2.1]
    exact h.pushing k (((hf.tasks k).place_iff (.inl rfl)).1 hk)
  · rw [owed_of_client hf, ← h.tokens co]
    simp only [State.tokens]
    rw [show s'.mutexWaiters = s.mutexWaiters from congrArg mutexWaiters hf.env,
      show s'.mutexResumes = s.mutexResumes from congrArg mutexResumes hf.env,
      show s'.active = s.active from congrArg active hf.env]

theorem of_tokens (h : s.Calls) {active : List (ℕ × Wake)} {waiters resumes : List ℕ}
    {wakes : ℕ → List Wake}
    (ht : ∀ co, waiters.count co + resumes.count co + active.countP (·.1 = co) = s.tokens co) :
    { s with active, mutexWaiters := waiters, mutexResumes := resumes, wakes }.Calls :=
  ⟨h.fresh, h.call, h.parked, h.pushing, h.wired, h.node, h.nodup,
    fun co => (ht co).trans (h.tokens co), h.untimed, h.expired, h.order⟩

theorem tick (h : s.Calls) (ms : ℕ) : { s with now := s.now + ms }.Calls :=
  ⟨h.fresh, h.call, h.parked, h.pushing, h.wired, h.node, h.nodup, h.tokens, h.untimed,
    fun k hk ht hn => (h.expired k hk ht hn).trans (Nat.le_add_right _ _), h.order⟩

theorem setCo (h : s.Calls) {st : CoState} {coPid : ℕ → ℕ}
    (hco : s.cos co = .running ∨ s.cos co = .free) (hst : st = .running ∨ st = .free) :
    { s.setCo co st with coPid }.Calls := by
  have hcall : (s.cos co).call = none := by
    rcases hco with hco | hco <;> rw [hco] <;> rfl
  have hst' : st.call = none := by
    rcases hst with hst | hst <;> rw [hst] <;> rfl
  have hcalls : ∀ co', (update s.cos co st co').call = (s.cos co').call := by
    intro co'
    rw [update_apply]
    split_ifs with hc
    · rw [hc, hcall, hst']
    · rfl
  have hparked : ∀ co' k, update s.cos co st co' = .parked k ↔ s.cos co' = .parked k := by
    intro co' k
    rw [update_apply]
    split_ifs with hc
    · subst hc
      rcases hco with hco | hco <;> rcases hst with hst | hst <;> simp [hco, hst]
    · exact Iff.rfl
  have haw : ∀ k, { s.setCo co st with coPid }.awaits k ↔ s.awaits k := by
    intro k
    unfold awaits
    exact iff_of_eq (congrArg (· = some k) (hcalls _))
  refine ⟨h.fresh, fun co' k hk => h.call co' k ((hcalls co').symm.trans hk),
    fun co' k hk => h.parked co' k ((hparked co' k).1 hk),
    fun k hk => (hparked _ k).2 (h.pushing k hk), h.wired,
    fun k hk => ⟨(h.node k hk).1, (haw k).2 (h.node k hk).2⟩, h.nodup, fun co' => ?_,
    fun k hk ht => (haw k).2 (h.untimed k hk ht), h.expired, h.order⟩
  refine (h.tokens co').trans ?_
  simp only [owed, State.setCo, update_apply]
  split_ifs with hc
  · subst hc
    rcases hco with hco | hco <;> rcases hst with hst | hst <;> rw [hco, hst]
  · rfl

theorem mutexPost (h : s.Calls) {rest : List ℕ} (hw : s.mutexWaiters = co :: rest) :
    { s with mutexWaiters := rest, mutexResumes := s.mutexResumes ++ [co] }.Calls := by
  refine h.of_tokens fun co' => ?_
  simp only [State.tokens, hw, count_cons, count_append, count_nil]
  omega

theorem tokens_activate {w : Wake} (co' : ℕ) :
    (s.activate co w).tokens co' = s.tokens co' + if co' = co then 1 else 0 := by
  simp only [State.tokens, activate, countP_append, countP_cons, countP_nil]
  by_cases hc : co' = co
  · simp [hc]
    omega
  · simp [hc, Ne.symm hc]

theorem resumeMutex (h : s.Calls) (hm : co ∈ s.mutexResumes) :
    ({ s with mutexResumes := s.mutexResumes.erase co }.activate co .mutex).Calls := by
  refine h.of_tokens fun co' => ?_
  have hcount : (s.mutexResumes.erase co).count co' =
      s.mutexResumes.count co' - if co == co' then 1 else 0 := count_erase
  have hpos : 0 < s.mutexResumes.count co := count_pos_iff.2 hm
  simp only [State.tokens, countP_append, countP_cons, countP_nil]
  by_cases hc : co' = co
  · subst hc
    simp at hcount ⊢
    omega
  · simp [hc, Ne.symm hc] at hcount ⊢

end State.Calls

/-- A coroutine `co` that runs makes a call with task `t` and is suspended as `st`
says. -/
structure Issued (s s' : State) (co timeout : ℕ) (st : CoState) (t : RpcClientTask) : Prop where
  running : s.cos co = .running
  next : s'.next = s.next + 1
  now : s'.now = s.now
  conns : s'.conns = s.conns
  tasks : s'.tasks = update s.tasks s.next t
  cos : s'.cos = update s.cos co st
  timeoutList : s'.timeoutList = if timeout = 0 then s.timeoutList else s.timeoutList ++ [s.next]
  waiters : ∀ co', s'.mutexWaiters.count co' =
    s.mutexWaiters.count co' + if st = .parked s.next ∧ co' = co then 1 else 0
  resumes : s'.mutexResumes = s.mutexResumes
  active : s'.active = s.active
  wakes : s'.wakes = s.wakes
  returned : s'.returned = s.returned
  call : st.call = some s.next
  caller : t.co = co
  expireTime : t.expireTime = if timeout = 0 then 0 else s.now + timeout
  unsent : t.request = .unsent
  beforeSend : t.place.beforeSend = true
  pushing : t.place = .pushing ↔ st = .parked s.next

namespace Issued

variable {s s' : State} {co timeout j : ℕ} {st : CoState} {t : RpcClientTask}

section

variable (hi : Issued s s' co timeout st t)
include hi

theorem tasks_of_ne (hj : j ≠ s.next) :
    s'.tasks j = s.tasks j := by
  rw [hi.tasks, update_of_ne hj]

theorem tasks_next : s'.tasks s.next = t := by
  rw [hi.tasks, update_self]

theorem cos_of_ne {co' : ℕ} (hc : co' ≠ co) :
    s'.cos co' = s.cos co' := by
  rw [hi.cos, update_of_ne hc]

theorem cos_self : s'.cos co = st := by
  rw [hi.cos, update_self]

theorem tokens (co' : ℕ) : s'.tokens co' =
    s.tokens co' + if st = .parked s.next ∧ co' = co then 1 else 0 := by
  unfold State.tokens
  rw [hi.waiters, hi.resumes, hi.active]
  omega

theorem timed_iff : t.timed = true ↔ timeout ≠ 0 := by
  unfold RpcClientTask.timed
  rw [bne_iff_ne, hi.expireTime]
  split_ifs with ht
  · simp [ht]
  · simp only [ne_eq, ht, not_false_eq_true, iff_true]
    omega

theorem not_awaits (hj : (s.tasks j).co = co) :
    ¬s.awaits j := by
  intro ha
  unfold State.awaits at ha
  rw [hj, hi.running] at ha
  cases ha

theorem awaits_iff (hj : j ≠ s.next) :
    s'.awaits j ↔ s.awaits j := by
  by_cases hc : (s.tasks j).co = co
  · refine iff_of_false ?_ (hi.not_awaits hc)
    unfold State.awaits
    rw [hi.tasks_of_ne hj, hc, hi.cos_self, hi.call]
    exact fun he => hj (Option.some.inj he).symm
  · unfold State.awaits
    rw [hi.tasks_of_ne hj, hi.cos_of_ne hc]

theorem awaits_next : s'.awaits s.next := by
  unfold State.awaits
  rw [hi.tasks_next, hi.caller, hi.cos_self, hi.call]

theorem mem_iff (hj : j ≠ s.next) :
    j ∈ s'.timeoutList ↔ j ∈ s.timeoutList := by
  rw [hi.timeoutList]
  split_ifs
  · exact Iff.rfl
  · simp [hj]

theorem pending_iff (hj : j ≠ s.next) :
    s'.pending j ↔ s.pending j := by
  unfold State.pending
  rw [hi.tasks_of_ne hj, hi.conns]

theorem fired_of_ne (hj : j ≠ s.next) :
    s'.fired j = s.fired j := by
  unfold State.fired
  rw [hi.tasks_of_ne hj]
  simp only [hi.mem_iff hj]

theorem fired_next : s'.fired s.next = false := by
  unfold State.fired
  rw [hi.tasks_next]
  split_ifs with ht
  · rw [hi.timeoutList, if_neg (hi.timed_iff.1 ht)]
    simp
  · have := hi.beforeSend
    refine decide_eq_false fun hp => ?_
    rw [hp] at this
    cases this

end

end Issued

namespace State.Calls

variable {s s' : State} {j k c co : ℕ}

section Issued

variable {timeout : ℕ} {st : CoState} {t : RpcClientTask}

section

variable (h : s.Calls) (hi : Issued s s' co timeout st t)
include h hi

theorem call_of_issued (co' k : ℕ)
    (hk : (s'.cos co').call = some k) : k < s'.next ∧ (s'.tasks k).co = co' ∧
      ∀ j, j < s'.next → (s'.tasks j).co = co' → j ≤ k := by
  rw [hi.next]
  by_cases hc : co' = co
  · subst hc
    rw [hi.cos_self, hi.call] at hk
    cases hk
    exact ⟨Nat.lt_succ_self _, by rw [hi.tasks_next, hi.caller], fun j hj _ => by omega⟩
  · rw [hi.cos_of_ne hc] at hk
    obtain ⟨hlt, hco, hle⟩ := h.call co' k hk
    refine ⟨by omega, by rw [hi.tasks_of_ne hlt.ne, hco], fun j hj hjco => ?_⟩
    by_cases hjn : j = s.next
    · subst hjn
      rw [hi.tasks_next, hi.caller] at hjco
      exact absurd hjco.symm hc
    · rw [hi.tasks_of_ne hjn] at hjco
      exact hle j (by omega) hjco

theorem parked_of_issued (co' k : ℕ)
    (hk : s'.cos co' = .parked k) : (s'.tasks k).place = .pushing := by
  by_cases hc : co' = co
  · subst hc
    rw [hi.cos_self] at hk
    have hkn : s.next = k := by
      have := hi.call
      rw [hk] at this
      exact (Option.some.inj this).symm
    subst hkn
    rw [hi.tasks_next]
    exact hi.pushing.2 hk
  · rw [hi.cos_of_ne hc] at hk
    rw [hi.tasks_of_ne (h.call co' k (by rw [hk]; rfl)).1.ne]
    exact h.parked co' k hk

theorem pushing_of_issued (k : ℕ)
    (hk : (s'.tasks k).place = .pushing) : s'.cos (s'.tasks k).co = .parked k := by
  by_cases hkn : k = s.next
  · subst hkn
    rw [hi.tasks_next] at hk ⊢
    rw [hi.caller, hi.cos_self]
    exact hi.pushing.1 hk
  · rw [hi.tasks_of_ne hkn] at hk ⊢
    have hp := h.pushing k hk
    rwa [hi.cos_of_ne fun hc => by rw [hc, hi.running] at hp; cases hp]

theorem wired_of_issued (k : ℕ) :
    Wired s'.conns k (s'.tasks k) := by
  rw [hi.conns]
  by_cases hkn : k = s.next
  · subst hkn
    rw [hi.tasks_next]
    refine wired_of_unsent hi.unsent fun err w hp => ?_
    have := hi.beforeSend
    rw [hp] at this
    cases this
  · rw [hi.tasks_of_ne hkn]
    exact h.wired k

theorem node_of_issued (k : ℕ)
    (hk : k ∈ s'.timeoutList) : (s'.tasks k).timed = true ∧ s'.awaits k := by
  by_cases hkn : k = s.next
  · subst hkn
    refine ⟨?_, hi.awaits_next⟩
    rw [hi.tasks_next, hi.timed_iff]
    intro ht
    rw [hi.timeoutList, if_pos ht] at hk
    exact absurd (h.awaits_lt (h.node _ hk).2) (lt_irrefl _)
  · rw [hi.tasks_of_ne hkn, hi.awaits_iff hkn]
    exact h.node k ((hi.mem_iff hkn).1 hk)

theorem nodup_of_issued :
    s'.timeoutList.Nodup := by
  rw [hi.timeoutList]
  split_ifs
  · exact h.nodup
  · refine nodup_append.2 ⟨h.nodup, by simp, fun k hk j hj => ?_⟩
    rw [mem_singleton.1 hj]
    exact (h.awaits_lt (h.node _ hk).2).ne

theorem tokens_of_issued (co' : ℕ) :
    s'.tokens co' = s'.owed co' := by
  rw [hi.tokens, h.tokens co']
  unfold owed
  by_cases hc : co' = co
  · subst hc
    rw [hi.running, hi.cos_self]
    have hcall := hi.call
    cases st with
    | free | running => cases hcall
    | parked k | blocked k =>
      cases hcall
      simp [hi.fired_next]
  · rw [hi.cos_of_ne hc, if_neg fun hp => hc hp.2, Nat.add_zero]
    cases hs : s.cos co' with
    | free | running => rfl
    | parked k | blocked k =>
      have hlt := (h.call co' k (by rw [hs]; rfl)).1
      simp only [hi.fired_of_ne hlt.ne]

theorem expired_of_issued (k : ℕ)
    (hk : s'.pending k) (ht : (s'.tasks k).timed = true) (hn : k ∉ s'.timeoutList) :
    (s'.tasks k).expireTime ≤ s'.now := by
  by_cases hkn : k = s.next
  · subst hkn
    rw [hi.tasks_next] at ht
    rw [hi.timeoutList, if_neg (hi.timed_iff.1 ht)] at hn
    simp at hn
  · rw [hi.tasks_of_ne hkn] at ht ⊢
    rw [hi.now]
    exact h.expired k ((hi.pending_iff hkn).1 hk) ht fun hm => hn ((hi.mem_iff hkn).2 hm)

theorem order_of_issued (j k : ℕ) (hlt : j < k)
    (hk : k < s'.next) (hco : (s'.tasks j).co = (s'.tasks k).co)
    (hjt : (s'.tasks j).timed = true) (hkt : (s'.tasks k).timed = true) (hj : s'.pending j) :
    (s'.tasks j).expireTime < (s'.tasks k).expireTime := by
  rw [hi.next] at hk
  have hjn : j ≠ s.next := by omega
  rw [hi.tasks_of_ne hjn] at hco hjt ⊢
  have hj' := (hi.pending_iff hjn).1 hj
  by_cases hkn : k = s.next
  · -- an earlier call that is pending expired by now
    subst hkn
    rw [hi.tasks_next] at hco hkt ⊢
    rw [hi.caller] at hco
    have hexp := h.expired j hj' hjt fun hm => hi.not_awaits hco (h.node j hm).2
    have := hi.timed_iff.1 hkt
    rw [hi.expireTime, if_neg this]
    omega
  · rw [hi.tasks_of_ne hkn] at hco hkt ⊢
    exact h.order j k hlt (by omega) hco hjt hkt hj'

/-- **A coroutine that runs makes a call.** -/
theorem issued : s'.Calls :=
  { fresh := fun k hk hp => by
      have hkn : k ≠ s.next := by rw [hi.next] at hk; omega
      exact h.fresh k (by rw [hi.next] at hk; omega) ((hi.pending_iff hkn).1 hp)
    call := h.call_of_issued hi
    parked := h.parked_of_issued hi
    pushing := h.pushing_of_issued hi
    wired := h.wired_of_issued hi
    node := h.node_of_issued hi
    nodup := h.nodup_of_issued hi
    tokens := h.tokens_of_issued hi
    untimed := fun k hk ht => by
      by_cases hkn : k = s.next
      · subst hkn
        exact hi.awaits_next
      · rw [hi.awaits_iff hkn]
        rw [hi.tasks_of_ne hkn] at ht
        exact h.untimed k ((hi.pending_iff hkn).1 hk) ht
    expired := h.expired_of_issued hi
    order := h.order_of_issued hi }

end

end Issued

theorem issued_of_callMethod {channel timeout : ℕ}
    (hs : s.callMethod co channel timeout = some s') : ∃ st t, Issued s s' co timeout st t := by
  obtain ⟨hco, rfl⟩ := Option.ite_some_none_eq_some.1 hs
  exact ⟨.blocked s.next, s.newTask co timeout (some channel) .taskQueue, hco, rfl, rfl, rfl, rfl,
    rfl, rfl, fun _ => by simp [State.issue], rfl, rfl, rfl, rfl, rfl, rfl, rfl, rfl, rfl,
    by simp [newTask]⟩

theorem issued_of_innerCallMethod {timeout : ℕ} {contended : Bool}
    (hs : s.innerCallMethod co timeout contended = some s') :
    ∃ st t, Issued s s' co timeout st t := by
  unfold State.innerCallMethod at hs
  split_ifs at hs with hco hc
  · cases hs
    refine ⟨.parked s.next, s.newTask co timeout none .pushing, hco, rfl, rfl, rfl, rfl, rfl, rfl,
      fun co' => ?_, rfl, rfl, rfl, rfl, rfl, rfl, rfl, rfl, rfl, by simp [newTask]⟩
    simp only [State.issue, count_append, count_singleton]
    by_cases hc : co' = co
    · simp [hc]
    · simp [hc, Ne.symm hc]
  · cases hs
    exact ⟨.blocked s.next, s.newTask co timeout none .requestQueue, hco, rfl, rfl, rfl, rfl, rfl,
      rfl, fun _ => by simp [State.issue], rfl, rfl, rfl, rfl, rfl, rfl, rfl, rfl, rfl,
      by simp [newTask]⟩

end State.Calls

/-- The message or the expiry of a call is handled: the call is settled, its node is
gone, and the caller is activated by an event of the call unless it was settled before. -/
structure Settles (s s' : State) (k : ℕ) : Prop where
  env : s.fired k = true ∧
      s'.toEnvironment = { s.toEnvironment with timeoutList := s.timeoutList.erase k } ∨
    s.fired k = false ∧ s.awaits k ∧ ∃ w : Wake, w.ownedBy k = true ∧ s'.toEnvironment =
      (State.activate { s with timeoutList := s.timeoutList.erase k }
        (s.tasks k).co w).toEnvironment
  conns : s'.conns = s.conns
  const : ∀ j, (s'.tasks j).co = (s.tasks j).co ∧ (s'.tasks j).expireTime = (s.tasks j).expireTime ∧
    (s'.tasks j).request = (s.tasks j).request
  place : ∀ j, (s'.tasks j).place = (s.tasks j).place ∨
    j = k ∧ (s'.tasks j).place = .resumed ∧ ∃ err w, (s.tasks j).place = .waitResume err w
  fired : s'.fired k = true
  expired : s'.pending k → (s.tasks k).timed = true → (s.tasks k).expireTime ≤ s.now

namespace Settles

variable {s s' : State} {j k : ℕ}

section

variable (hs : Settles s s' k)
include hs

theorem frame : s'.next = s.next ∧ s'.now = s.now ∧ s'.cos = s.cos ∧
    s'.timeoutList = s.timeoutList.erase k ∧ s'.mutexWaiters = s.mutexWaiters ∧
    s'.mutexResumes = s.mutexResumes ∧ s'.returned = s.returned := by
  rcases hs.env with ⟨-, he⟩ | ⟨-, -, w, -, he⟩ <;> rw [he] <;>
    exact ⟨rfl, rfl, rfl, rfl, rfl, rfl, rfl⟩

theorem cos : s'.cos = s.cos := hs.frame.2.2.1

theorem timeoutList : s'.timeoutList = s.timeoutList.erase k :=
  hs.frame.2.2.2.1

theorem tokens (co : ℕ) : s'.tokens co =
    s.tokens co + if co = (s.tasks k).co ∧ s.fired k = false then 1 else 0 := by
  rcases hs.env with ⟨hf, he⟩ | ⟨hf, -, w, -, he⟩
  · unfold State.tokens
    rw [he, hf]
    simp
  · have htokens : s'.tokens co = (State.activate { s with timeoutList := s.timeoutList.erase k }
          (s.tasks k).co w).tokens co := by
      unfold State.tokens
      rw [he]
    rw [htokens, State.Calls.tokens_activate, hf]
    simp only [and_true]
    rfl

theorem timed (j : ℕ) : (s'.tasks j).timed = (s.tasks j).timed :=
  State.Calls.timed_congr (hs.const j).2.1

theorem place_of_ne (hj : j ≠ k) :
    (s'.tasks j).place = (s.tasks j).place :=
  (hs.place j).resolve_right fun h => hj h.1

theorem mem_iff (hj : j ≠ k) :
    j ∈ s'.timeoutList ↔ j ∈ s.timeoutList := by
  rw [hs.timeoutList]
  exact mem_erase_of_ne hj

theorem pending (hj : s'.pending j) : s.pending j := by
  unfold State.pending at hj ⊢
  rw [(hs.const j).2.2, hs.conns] at hj
  refine hj.imp_left fun hl => ?_
  rcases hs.place j with hp | ⟨-, hp, -⟩
  · rwa [hp] at hl
  · rw [hp] at hl
    cases hl

theorem awaits_iff : s'.awaits j ↔ s.awaits j := by
  unfold State.awaits
  rw [(hs.const j).1, hs.cos]

theorem fired_of_ne (hj : j ≠ k) : s'.fired j = s.fired j := by
  unfold State.fired
  rw [hs.timed, hs.place_of_ne hj]
  simp only [hs.mem_iff hj]

theorem call_of_fired (hf : s.fired k = false) :
    (s.cos (s.tasks k).co).call = some k := by
  rcases hs.env with ⟨hf', -⟩ | ⟨-, ha, -⟩
  · rw [hf] at hf'
    cases hf'
  · exact ha

end

theorem owed (h : s.Calls) (hs : Settles s s' k) (co : ℕ) : s'.owed co =
    s.owed co + if co = (s.tasks k).co ∧ s.fired k = false then 1 else 0 := by
  have hstep : ∀ j, (s.cos co).call = some j → (s'.fired j).toNat =
      (s.fired j).toNat + if co = (s.tasks k).co ∧ s.fired k = false then 1 else 0 := by
    intro j hj
    by_cases hjk : j = k
    · subst hjk
      rw [hs.fired, (h.call co j hj).2.1]
      cases s.fired j <;> simp
    · -- a call other than the one the caller is in is not activated
      have hne : ¬(co = (s.tasks k).co ∧ s.fired k = false) := by
        rintro ⟨hc, hf⟩
        have hcall := hs.call_of_fired hf
        rw [← hc, hj] at hcall
        exact hjk (Option.some.inj hcall)
      rw [hs.fired_of_ne hjk, if_neg hne]
      rfl
  have hnone : (s.cos co).call = none → ¬(co = (s.tasks k).co ∧ s.fired k = false) := by
    rintro hn ⟨hc, hf⟩
    have hcall := hs.call_of_fired hf
    rw [← hc, hn] at hcall
    cases hcall
  unfold State.owed
  rw [hs.cos]
  cases hco : s.cos co with
  | free | running => simp only [if_neg (hnone (by rw [hco]; rfl))]
  | parked j | blocked j =>
    have := hstep j (by rw [hco]; rfl)
    simp only
    omega

end Settles

namespace State.Calls

variable {s s' : State} {j k c co : ℕ}

theorem wired_of_settles (h : s.Calls) (hs : Settles s s' k) (j : ℕ) :
    Wired s'.conns j (s'.tasks j) := by
  have hw := h.wired j
  rw [hs.conns]
  rcases hs.place j with hp | ⟨-, hp, hm⟩
  · refine ⟨?_, ?_, ?_, ?_⟩ <;> rw [hp]
    · rw [(hs.const j).2.2]
      exact hw.unsent
    · rw [(hs.const j).2.2]
      exact hw.sent
    · rw [(hs.const j).2.2]
      exact hw.closed
    · exact hw.owned
  · refine ⟨?_, ?_, ?_, ?_⟩ <;> rw [hp]
    · exact nofun
    · exact nofun
    · rw [(hs.const j).2.2]
      exact fun _ => hw.closed (.inr hm)
    · exact nofun

/-- **The message or the expiry of a call is handled.** -/
theorem settles (h : s.Calls) (hs : Settles s s' k) : s'.Calls := by
  obtain ⟨hnext, hnow, hcos, hlist, -⟩ := hs.frame
  have hkeeps : Keeps s s' :=
    { next := hnext
      now := hnow.ge
      const := fun j => ⟨(hs.const j).1, (hs.const j).2.1⟩
      pending := fun _ => hs.pending
      call := fun co j hj => hcos ▸ hj
      stays := fun j hj _ => hs.awaits_iff.2 hj
      list := fun j hj => mem_of_mem_erase (hlist ▸ hj)
      nodup := hlist ▸ h.nodup.erase k
      expired := fun j hj hm hn => by
        by_cases hjk : j = k
        · subst hjk
          exact hnow ▸ hs.expired hj (h.node j hm).1
        · exact absurd ((hs.mem_iff hjk).2 hm) hn }
  refine hkeeps.calls h (fun co j hj => ?_) (fun j hj => ?_) (h.wired_of_settles hs) fun co => ?_
  · have hp := h.parked co j (hcos ▸ hj)
    rcases hs.place j with hp' | ⟨-, -, err, w, hw⟩
    · exact hp'.trans hp
    · rw [hp] at hw
      cases hw
  · rw [hcos, (hs.const j).1]
    rcases hs.place j with hp' | ⟨-, hp', -⟩
    · exact h.pushing j (hp' ▸ hj)
    · rw [hp'] at hj
      cases hj
  · rw [hs.tokens, hs.owed h, h.tokens]

theorem getNode_spec {pid n : ℕ} (hn : s.getNode pid co = some n) :
    n ∈ s.timeoutList ∧ (s.tasks n).co = co := by
  refine ⟨mem_of_find?_eq_some hn, ?_⟩
  have := List.find?_some hn
  simp only [Bool.and_eq_true, decide_eq_true_eq] at this
  exact this.2

theorem not_mem_of_getNode (h : s.Calls)
    (hn : ∀ n, s.getNode (s.tasks k).pid (s.tasks k).co = some n →
      (s.tasks n).expireTime ≠ (s.tasks k).expireTime) : k ∉ s.timeoutList := by
  intro hk
  cases hg : s.getNode (s.tasks k).pid (s.tasks k).co with
  | none =>
    have := List.find?_eq_none.1 hg k hk
    simp at this
  | some n =>
    obtain ⟨hm, hco⟩ := getNode_spec hg
    have hnk := awaits_unique (h.node n hm).2 (h.node k hk).2 hco
    exact hn n hg (hnk ▸ rfl)

theorem resumed_const {err : ℕ} (n j : ℕ) :
    let t := ((s.move k .resumed).modify n (settle err)).tasks j
    t.co = (s.tasks j).co ∧ t.expireTime = (s.tasks j).expireTime ∧
      t.request = (s.tasks j).request ∧
      t.place = if j = k then .resumed else (s.tasks j).place := by
  dsimp only
  rw [tasks_modify]
  split_ifs with hj hk hk
  · obtain ⟨c, hc, -⟩ := settle_eq err ((s.move k .resumed).tasks n)
    rw [hc, tasks_move, hj, ← hk, hj]
    simp
  · obtain ⟨c, hc, -⟩ := settle_eq err ((s.move k .resumed).tasks n)
    rw [hc, tasks_move, hj]
    simp [← hj, hk]
  · rw [tasks_move]
    simp [hk]
  · rw [tasks_move]
    simp [hk]

theorem awaits_of_fired (h : s.Calls) (hk : s.pending k) (hf : s.fired k = false) : s.awaits k := by
  unfold fired at hf
  split_ifs at hf with ht
  · exact (h.node k (by simpa using hf)).2
  · exact h.untimed k hk (Bool.eq_false_iff.2 ht)

theorem settles_of_message (h : s.Calls) {err : ℕ} {w : Wake}
    (hplace : (s.tasks k).place = .waitResume err w) (hconns : s'.conns = s.conns)
    (hlist : s'.timeoutList = s.timeoutList.erase k)
    (htasks : ∀ j, (s'.tasks j).co = (s.tasks j).co ∧
      (s'.tasks j).expireTime = (s.tasks j).expireTime ∧
      (s'.tasks j).request = (s.tasks j).request ∧
      (s'.tasks j).place = if j = k then .resumed else (s.tasks j).place) (henv : s.fired k = true ∧
        s'.toEnvironment = { s.toEnvironment with timeoutList := s.timeoutList.erase k } ∨
      s.fired k = false ∧ s'.toEnvironment =
        (State.activate { s with timeoutList := s.timeoutList.erase k }
          (s.tasks k).co w).toEnvironment) :
    Settles s s' k := by
  refine ⟨?_, hconns, fun j => ⟨(htasks j).1, (htasks j).2.1, (htasks j).2.2.1⟩, fun j => ?_, ?_,
    fun hp _ => ?_⟩
  · refine henv.imp_right fun ⟨hf, he⟩ => ⟨hf, h.awaits_of_fired (.inl ?_) hf, w, ?_, he⟩
    · rw [hplace]
      rfl
    · exact (h.wired k).owned err w hplace
  · rw [(htasks j).2.2.2]
    by_cases hj : j = k
    · exact .inr ⟨hj, if_pos hj, err, w, hj ▸ hplace⟩
    · exact .inl (if_neg hj)
  · unfold fired
    rw [(htasks k).2.2.2, if_pos rfl, hlist]
    split_ifs
    · exact decide_eq_true h.nodup.not_mem_erase
    · exact decide_eq_true rfl
  · -- no response can arrive any more
    rcases hp with hl | ⟨c, hc, hopen⟩
    · rw [(htasks k).2.2.2, if_pos rfl] at hl
      cases hl
    · rw [(htasks k).2.2.1] at hc
      rw [hconns, (h.wired k).closed (.inr ⟨err, w, hplace⟩) c hc] at hopen
      cases hopen

/-- **`resumeRoutine` at the message of a call** settles this call. -/
theorem settles_of_resumeCall (h : s.Calls) (hs : s.resumeCall k = some s') : Settles s s' k := by
  obtain ⟨err, w, hplace, hs'⟩ := resumeCall_spec hs
  have hmove : ∀ j, ((s.move k .resumed).tasks j).co = (s.tasks j).co ∧
      ((s.move k .resumed).tasks j).expireTime = (s.tasks j).expireTime ∧
      ((s.move k .resumed).tasks j).request = (s.tasks j).request ∧
      ((s.move k .resumed).tasks j).place = if j = k then .resumed else (s.tasks j).place := by
    intro j
    rw [tasks_move]
    exact ⟨rfl, rfl, rfl, rfl⟩
  rcases hs' with ⟨hexp, rfl⟩ | ⟨hexp, n, hn, hne, rfl⟩ | ⟨hexp, rfl, hn⟩
  · -- a call without time-out
    have ht : (s.tasks k).timed = false := by simp [RpcClientTask.timed, hexp]
    have hk : k ∉ s.timeoutList := fun hk => by
      rw [(h.node k hk).1] at ht
      cases ht
    refine h.settles_of_message hplace rfl (erase_of_not_mem hk).symm hmove (.inr ⟨?_, ?_⟩)
    · simp [fired, ht, hplace]
    · rw [erase_of_not_mem hk]
      rfl
  · -- the node is the one of the call
    obtain ⟨hm, hco⟩ := getNode_spec hn
    have hnk := h.call_of_node (.inl (by rw [hplace]; rfl)) hm hco hne
    subst hnk
    refine h.settles_of_message hplace rfl rfl (fun j => resumed_const n j) (.inr ⟨?_, rfl⟩)
    simp [fired, (h.node n hm).1, hm]
  · have hk := h.not_mem_of_getNode hn
    have ht : (s.tasks k).timed = true := by simpa [RpcClientTask.timed] using hexp
    refine h.settles_of_message hplace rfl (erase_of_not_mem hk).symm hmove (.inl ⟨?_, ?_⟩)
    · simp [fired, ht, hk]
    · rw [erase_of_not_mem hk]
      rfl

/-- **`timeoutRoutine` at a node** settles its call. -/
theorem settles_of_timeout (h : s.Calls) (hs : s.timeout k = some s') : Settles s s' k := by
  obtain ⟨hk, rfl⟩ := Option.ite_some_none_eq_some.1 hs
  have htask : ∀ j, (s.modify k expire).tasks j =
      { s.tasks j with controller := if j = k then (expire (s.tasks k)).controller
        else (s.tasks j).controller } := by
    intro j
    rw [tasks_modify]
    split_ifs with hj
    · rw [hj]
      rfl
    · rfl
  have ht : (s.tasks k).timed = true := (h.node k hk.1).1
  generalize hs' : ({ s.modify k expire with timeoutList := s.timeoutList.erase k }.activate
    (s.tasks k).co (.expiry k)) = s'
  have htasks : ∀ j, s'.tasks j = (s.modify k expire).tasks j := fun j => by rw [← hs']; rfl
  refine ⟨.inr ⟨?_, (h.node k hk.1).2, .expiry k, decide_eq_true rfl, by rw [← hs']; rfl⟩,
    by rw [← hs']; rfl, fun j => ?_, fun j => .inl ?_, ?_, fun _ _ => hk.2⟩
  · simp [fired, ht, hk.1]
  · rw [htasks, htask]
    exact ⟨rfl, rfl, rfl⟩
  · rw [htasks, htask]
  · have ht' : (s'.tasks k).timed = true := by
      rw [htasks, htask]
      exact ht
    have hlist : s'.timeoutList = s.timeoutList.erase k := by rw [← hs']; rfl
    unfold fired
    rw [if_pos ht', hlist]
    exact decide_eq_true h.nodup.not_mem_erase

theorem exists_eraseP {active : List (ℕ × Wake)} (ha : active.any (·.1 = co) = true) :
    ∃ b : ℕ × Wake, b.1 = co ∧ ∀ p : ℕ × Wake → Bool,
      (active.eraseP (·.1 = co)).countP p + (if p b then 1 else 0) = active.countP p := by
  obtain ⟨a, hmem, hpa⟩ := any_eq_true.1 ha
  obtain ⟨b, l₁, l₂, -, hb, hl, he⟩ :=
    exists_of_eraseP (p := fun x : ℕ × Wake => decide (x.1 = co)) hmem hpa
  refine ⟨b, of_decide_eq_true hb, fun p => ?_⟩
  rw [he, hl, countP_append, countP_append, countP_cons]
  omega

theorem countP_eraseP {active : List (ℕ × Wake)} (ha : active.any (·.1 = co) = true) (co' : ℕ) :
    (active.eraseP (·.1 = co)).countP (·.1 = co') + (if co' = co then 1 else 0) =
      active.countP (·.1 = co') := by
  obtain ⟨b, rfl, hcount⟩ := exists_eraseP ha
  rw [← hcount]
  simp only [decide_eq_true_eq, @eq_comm _ co']

theorem fired_move {p : Place} (hk : (s.tasks k).place ≠ .resumed) (hp : p ≠ .resumed) (j : ℕ) :
    (s.move k p).fired j = s.fired j := by
  unfold fired
  rw [tasks_move]
  by_cases hj : j = k
  · subst hj
    simp [RpcClientTask.timed, hk, hp]
    rfl
  · simp [RpcClientTask.timed, hj]
    rfl

theorem tokens_eraseP (ha : s.active.any (·.1 = co) = true) (co' : ℕ) :
    { s with active := s.active.eraseP (·.1 = co) }.tokens co' + (if co' = co then 1 else 0) =
      s.tokens co' := by
  have hcount := countP_eraseP ha co'
  simp only [State.tokens]
  omega

theorem not_left_of_fired (h : s.Calls) (hf : s.fired k = true) :
    ¬(k ∈ s.timeoutList ∨ s.pending k ∧ (s.tasks k).timed = false) := by
  unfold fired at hf
  rintro (hm | ⟨hp, ht⟩)
  · rw [if_pos (h.node k hm).1] at hf
    exact of_decide_eq_true hf hm
  · rw [ht] at hf
    have hres : (s.tasks k).place = .resumed := of_decide_eq_true hf
    rcases hp with hl | ⟨c, hc, hopen⟩
    · rw [hres] at hl
      cases hl
    · rw [(h.wired k).closed (.inl hres) c hc] at hopen
      cases hopen

theorem acquire (h : s.Calls) (hco : s.cos co = .parked k) (ha : s.active.any (·.1 = co) = true) :
    (({ s with active := s.active.eraseP (·.1 = co) }.setCo co (.blocked k)).move k
      .requestQueue).Calls := by
  have hkco : (s.tasks k).co = co := (h.call co k (by rw [hco]; rfl)).2.1
  have hplace : (s.tasks k).place = .pushing := h.parked co k hco
  generalize hs' : ({ s with active := s.active.eraseP (·.1 = co) }.setCo co (.blocked k)).move k
    .requestQueue = s'
  have hcos : s'.cos = update s.cos co (.blocked k) := by rw [← hs']; rfl
  have hconns : s'.conns = s.conns := by rw [← hs']; rfl
  have hlist : s'.timeoutList = s.timeoutList := by rw [← hs']; rfl
  have htask : ∀ j, s'.tasks j = { s.tasks j with
      place := if j = k then .requestQueue else (s.tasks j).place } := by
    intro j
    rw [← hs', tasks_move]
    rfl
  have hconst : ∀ j, (s'.tasks j).co = (s.tasks j).co ∧
      (s'.tasks j).expireTime = (s.tasks j).expireTime := fun j => by rw [htask]; exact ⟨rfl, rfl⟩
  have hcall : ∀ co', (s'.cos co').call = (s.cos co').call := by
    intro co'
    rw [hcos, update_apply]
    split_ifs with hc
    · rw [hc, hco]
      rfl
    · rfl
  have hpend : ∀ j, s'.pending j → s.pending j := by
    intro j hj
    unfold pending at hj ⊢
    rw [htask, hconns] at hj
    refine hj.imp_left fun hl => ?_
    by_cases hjk : j = k
    · rw [hjk, hplace]
      rfl
    · simpa [hjk] using hl
  have hfired : ∀ j, s'.fired j = s.fired j := by
    intro j
    have hne : (s.tasks k).place ≠ .resumed := by rw [hplace]; nofun
    rw [← hs']
    refine fired_move ?_ (by nofun) j
    exact hne
  have hkeeps : Keeps s s' :=
    { next := by rw [← hs']; rfl
      now := by rw [← hs']; exact le_rfl
      const := hconst
      pending := hpend
      call := fun co' j hj => hcall co' ▸ hj
      stays := fun j hj _ => by
        unfold awaits at hj ⊢
        rw [(hconst j).1, hcall]
        exact hj
      list := fun j hj => hlist ▸ hj
      nodup := hlist ▸ h.nodup
      expired := fun j _ hm hn => absurd (hlist ▸ hm) hn }
  refine hkeeps.calls h (fun co' j hj => ?_) (fun j hj => ?_) (fun j => ?_) fun co' => ?_
  · rw [hcos, update_apply] at hj
    split_ifs at hj with hc
    have hjk : j ≠ k := fun hjk => by
      have := (h.call co' j (by rw [hj]; rfl)).2.1
      exact hc (by rw [← this, hjk, hkco])
    rw [htask]
    simpa [hjk] using h.parked co' j hj
  · rw [(hconst j).1]
    rw [htask] at hj
    by_cases hjk : j = k
    · simp [hjk] at hj
    · have hp := h.pushing j (by simpa [hjk] using hj)
      rw [hcos, update_of_ne, hp]
      intro hc
      rw [hc, hco] at hp
      exact hjk (CoState.parked.inj hp).symm
  · rw [htask, hconns]
    by_cases hjk : j = k
    · subst hjk
      refine wired_of_unsent ((h.wired j).unsent (by rw [hplace]; rfl)) fun err w hw => ?_
      rw [if_pos rfl] at hw
      cases hw
    · rw [if_neg hjk]
      exact h.wired j
  · have howed : s'.owed co' + (if co' = co then 1 else 0) = s.owed co' := by
      unfold owed
      rw [hcos, update_apply]
      split_ifs with hc
      · rw [hc, hco]
        simp only [hfired]
        exact Nat.add_comm _ _
      · cases s.cos co' <;> simp only [hfired, Nat.add_zero]
    have htok : s'.tokens co' + (if co' = co then 1 else 0) = s.tokens co' := by
      rw [← hs']
      exact tokens_eraseP ha co'
    have := h.tokens co'
    omega

theorem fired_of_active (h : s.Calls) (hco : s.cos co = .blocked k)
    (ha : s.active.any (·.1 = co) = true) : s.fired k = true := by
  have htok := h.tokens co
  have := countP_eraseP ha co
  simp only [State.tokens, owed, hco] at htok
  cases hf : s.fired k with
  | true => rfl
  | false =>
    simp only [hf, if_pos, Bool.toNat_false] at htok this
    omega

theorem leave (h : s.Calls) (hco : s.cos co = .blocked k) (ha : s.active.any (·.1 = co) = true) :
    ({ { s with active := s.active.eraseP (·.1 = co) }.setCo co .running with
      returned := update s.returned k true }).Calls := by
  have hkco : (s.tasks k).co = co := (h.call co k (by rw [hco]; rfl)).2.1
  have hfired : s.fired k = true := h.fired_of_active hco ha
  generalize hs' : ({ { s with active := s.active.eraseP (·.1 = co) }.setCo co .running with
      returned := update s.returned k true } : State) = s'
  have hcos : s'.cos = update s.cos co .running := by rw [← hs']; rfl
  have htasks : s'.tasks = s.tasks := by rw [← hs']; rfl
  have hconns : s'.conns = s.conns := by rw [← hs']; rfl
  have hlist : s'.timeoutList = s.timeoutList := by rw [← hs']; rfl
  have hpend : ∀ j, s'.pending j → s.pending j := fun j hj => by
    unfold pending at hj ⊢
    rwa [htasks, hconns] at hj
  have hkeeps : Keeps s s' :=
    { next := by rw [← hs']; rfl
      now := by rw [← hs']; exact le_rfl
      const := fun j => by rw [htasks]; exact ⟨rfl, rfl⟩
      pending := hpend
      call := fun co' j hj => by
        rw [hcos, update_apply] at hj
        split_ifs at hj
        · cases hj
        · exact hj
      stays := fun j hj hleft => by
        unfold awaits
        rw [htasks, hcos, update_of_ne]
        · exact hj
        · -- the caller of `j` is another one, as call `k` was settled
          intro hc
          have hjk : j = k := by
            unfold awaits at hj
            rw [hc, hco] at hj
            exact (Option.some.inj hj).symm
          subst hjk
          rw [hlist] at hleft
          exact h.not_left_of_fired hfired (hleft.imp_right fun hp => ⟨hpend j hp.1, hp.2⟩)
      list := fun j hj => hlist ▸ hj
      nodup := hlist ▸ h.nodup
      expired := fun j _ hm hn => absurd (hlist ▸ hm) hn }
  refine hkeeps.calls h (fun co' j hj => ?_) (fun j hj => ?_) (fun j => ?_) fun co' => ?_
  · rw [hcos, update_apply] at hj
    split_ifs at hj
    rw [htasks]
    exact h.parked co' j hj
  · rw [htasks] at hj ⊢
    have hp := h.pushing j hj
    rw [hcos, update_of_ne, hp]
    intro hc
    rw [hc, hco] at hp
    cases hp
  · rw [htasks, hconns]
    exact h.wired j
  · have htok : s'.tokens co' + (if co' = co then 1 else 0) = s.tokens co' := by
      rw [← hs']
      exact tokens_eraseP ha co'
    have htokens := h.tokens co'
    unfold owed at htokens ⊢
    rw [hcos, update_apply]
    split_ifs at htok ⊢ with hc
    · subst hc
      simp only [hco, hfired, Bool.toNat_true] at htokens
      simp only
      omega
    · have hf : ∀ j, s'.fired j = s.fired j := fun j => by
        unfold fired
        rw [htasks, hlist]
      simp only [hf]
      omega

theorem again (h : s.Calls) (ha : s.active.any (·.1 = co) = true) :
    { s with
      active := s.active.eraseP (·.1 = co), mutexWaiters := co :: s.mutexWaiters }.Calls := by
  refine h.of_tokens fun co' => ?_
  have := countP_eraseP ha co'
  simp only [State.tokens, count_cons]
  by_cases hc : co' = co
  · simp [hc] at this ⊢
    omega
  · simp [hc, Ne.symm hc] at this ⊢
    omega

theorem step (h : s.Calls) (hc : s.toClient.Sound) {a : Action} (hs : s.step a = some s') :
    s'.Calls := by
  cases a with
  | client a => exact h.client hc (clientStep_frame hs)
  | env a =>
    cases envStep_step hs with
    | tick ms => exact h.tick ms
    | startCoroutine hco => exact h.setCo (.inr hco) (.inl rfl)
    | endCoroutine hco => exact h.setCo (.inl hco) (.inr rfl)
    | callMethod =>
      obtain ⟨st, t, hi⟩ := issued_of_callMethod hs
      exact h.issued hi
    | park | push =>
      obtain ⟨st, t, hi⟩ := issued_of_innerCallMethod hs
      exact h.issued hi
    | mutexPost hw => exact h.mutexPost hw
    | resumeMutex hm => exact h.resumeMutex hm
    | resumeCall hs => exact h.settles (h.settles_of_resumeCall hs)
    | timeout => exact h.settles (h.settles_of_timeout hs)
    | again ha _ => exact h.again ha
    | acquire ha hco => exact h.acquire hco ha
    | leave ha hco => exact h.leave hco ha

theorem init (channels : ℕ → ℕ) : (State.init channels).Calls := by
  have hpend : ∀ k, ¬(State.init channels).pending k := by
    rintro k (hl | ⟨c, hc, -⟩)
    · cases hl
    · cases hc
  refine ⟨fun k _ => hpend k, nofun, nofun, nofun, fun k => wired_of_unsent rfl nofun, nofun,
    nodup_nil, fun co => rfl, fun k hk => absurd hk (hpend k), fun k hk => absurd hk (hpend k),
    fun j k _ hk => absurd hk (Nat.not_lt_zero k)⟩

end State.Calls

structure State.Coherent (s : State) : Prop where
  sound : s.toClient.Sound
  kinds : s.Kinds
  calls : s.Calls

theorem State.Coherent.step {s s' : State} (h : s.Coherent) {a : Action}
    (hs : s.step a = some s') : s'.Coherent :=
  ⟨sound_step h.sound hs, h.kinds.step hs, h.calls.step h.sound hs⟩

theorem coherent_init (channels : ℕ → ℕ) : (State.init channels).Coherent :=
  ⟨sound_init channels, kinds_init channels, .init channels⟩

end Corpc.Rpc
