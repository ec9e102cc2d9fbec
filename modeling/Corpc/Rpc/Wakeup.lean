/-
# A call with a time-out is woken once

While the caller of a call with a time-out waits in `CallMethod`, `timeoutList_` has its node, and
what takes the node away activates the caller.
-/

import Mathlib.Data.List.Nodup
import Corpc.Rpc.CallsKept

namespace Corpc.Rpc

open Corpc.Basis Function

def CoState.isParked : CoState → Bool
  | .parked _ => true
  | _ => false

namespace State

variable (s : State)

/-- The nodes of the caller in `timeoutList_` of its thread. -/
def nodes (k : ℕ) : List ℕ :=
  s.timeoutList.filter fun j => (s.tasks j).pid = (s.tasks k).pid && (s.tasks j).co = (s.tasks k).co

/-- What the mutex of the request queue has for a coroutine: a place among the waiters, a
message, or an activation that was not resumed yet. -/
def mutexTokens (co : ℕ) : ℕ :=
  s.mutexWaiters.count co + s.mutexResumes.count co + s.active.count (co, .mutex)

end State

def pushedInTime (s : State) : Action → Bool
  | .env (.timeout k) => s.cos (s.tasks k).co ≠ .parked k
  | _ => true

/-- The mutex wakes those who wait for it, and a caller is woken at the end of its
call. -/
structure State.Handed (s : State) : Prop where
  parked : ∀ co k, s.cos co = .parked k → s.fired k = false
  mutex : ∀ co, s.mutexTokens co = (s.cos co).isParked.toNat
  fresh : ∀ k, s.next ≤ k → s.wakes k = []
  silent : ∀ k, k < s.next → s.fired k = false → s.wakes k = []
  woken : ∀ k, k < s.next → s.fired k = true → ∃ w, s.wakes k = [w] ∧ w.ownedBy k = true

namespace State.Handed

variable {s s' : State} {k co : ℕ}

theorem of_silent (h : s.Handed) (hnext : s'.next = s.next) (hwakes : s'.wakes = s.wakes)
    (hfired : ∀ k, s'.fired k = s.fired k)
    (hparked : ∀ co k, s'.cos co = .parked k → s.cos co = .parked k)
    (hmutex : ∀ co, s'.mutexTokens co = (s'.cos co).isParked.toNat) : s'.Handed := by
  refine ⟨fun co k hk => ?_, hmutex, ?_, ?_, ?_⟩
  · rw [hfired]
    exact h.parked co k (hparked co k hk)
  · rw [hnext, hwakes]
    exact h.fresh
  · intro k hk hf
    rw [hwakes]
    exact h.silent k (hnext ▸ hk) (hfired k ▸ hf)
  · intro k hk hf
    rw [hwakes]
    exact h.woken k (hnext ▸ hk) (hfired k ▸ hf)

theorem client (h : s.Handed) {a : ClientAction} (hf : ClientFrame a s s') : s'.Handed := by
  refine h.of_silent (congrArg Environment.next hf.env) (congrArg Environment.wakes hf.env)
    (fun k => Calls.fired_of_client hf) (fun co k hk => ?_) fun co => ?_
  · rwa [congrArg Environment.cos hf.env] at hk
  · unfold mutexTokens
    rw [hf.env]
    exact h.mutex co

theorem issued (h : s.Handed) (hcalls : s.Calls) {timeout : ℕ} {st : CoState} {t : RpcClientTask}
    (hi : Issued s s' co timeout st t) : s'.Handed := by
  refine ⟨fun co' k hk => ?_, fun co' => ?_, fun k hk => ?_, fun k hk hf => ?_, fun k hk hf => ?_⟩
  · by_cases hc : co' = co
    · subst hc
      rw [hi.cos_self] at hk
      have hkn := hi.call
      rw [hk] at hkn
      rw [Option.some.inj hkn]
      exact hi.fired_next
    · rw [hi.cos_of_ne hc] at hk
      rw [hi.fired_of_ne (hcalls.call co' k (by rw [hk]; rfl)).1.ne]
      exact h.parked co' k hk
  · have hold := h.mutex co'
    unfold mutexTokens at hold ⊢
    rw [hi.waiters, hi.resumes, hi.active]
    by_cases hc : co' = co
    · subst hc
      rw [hi.running] at hold
      rw [hi.cos_self]
      cases st with
      | parked j =>
        obtain rfl := Option.some.inj hi.call
        simp only [CoState.isParked, Bool.toNat_false, Bool.toNat_true, and_self, if_true] at hold ⊢
        omega
      | _ => simpa [CoState.isParked] using hold
    · rw [hi.cos_of_ne hc, if_neg fun hp => hc hp.2]
      exact hold
  · rw [hi.wakes]
    exact h.fresh k (by rw [hi.next] at hk; omega)
  · rw [hi.wakes]
    by_cases hkn : k = s.next
    · exact h.fresh k hkn.ge
    · rw [hi.next] at hk
      exact h.silent k (by omega) (hi.fired_of_ne hkn ▸ hf)
  · rw [hi.wakes]
    by_cases hkn : k = s.next
    · rw [hkn, hi.fired_next] at hf
      cases hf
    · rw [hi.next] at hk
      exact h.woken k (by omega) (hi.fired_of_ne hkn ▸ hf)

theorem woken_of_call (hco : (s.cos co).call = some k) {w : Wake} {j : ℕ}
    (hw : w.ownedBy j = true) : s.woken co w = some k := by
  unfold State.woken
  cases hc : s.cos co with
  | blocked i =>
    rw [hc] at hco
    exact hco
  | parked i =>
    rw [hc] at hco
    have hne : w ≠ .mutex := by
      rintro rfl
      cases hw
    rw [← hco]
    simp only [if_neg hne]
    rfl
  | free | running => rw [hc] at hco; cases hco

theorem wakes_of_settles (hs : Settles s s' k) :
    s.fired k = true ∧ s'.wakes = s.wakes ∨ s.fired k = false ∧ ∃ w, w.ownedBy k = true ∧
        s'.wakes = update s.wakes k (s.wakes k ++ [w]) := by
  rcases hs.env with ⟨hf, he⟩ | ⟨hf, ha, w, hw, he⟩
  · exact .inl ⟨hf, by rw [he]⟩
  · refine .inr ⟨hf, w, hw, (congrArg Environment.wakes he).trans ?_⟩
    have hcall : State.woken { s with timeoutList := s.timeoutList.erase k } (s.tasks k).co w =
        some k := woken_of_call ha hw
    simp only [State.activate, hcall]

theorem mutexTokens_of_settles (hs : Settles s s' k) (co : ℕ) :
    s'.mutexTokens co = s.mutexTokens co := by
  unfold mutexTokens
  rcases hs.env with ⟨-, he⟩ | ⟨-, -, w, hw, he⟩
  · rw [he]
  · have hne : w ≠ .mutex := by
      rintro rfl
      cases hw
    rw [he]
    simp [State.activate, List.count_append, hne]

/-- **A call is settled**, by an event of its own, while its caller does not wait for the
mutex. -/
theorem settles (h : s.Handed) (hcalls : s.Calls) (hs : Settles s s' k)
    (hk : ∀ co, s.cos co ≠ .parked k) : s'.Handed := by
  obtain ⟨hnext, -, hcos, -⟩ := hs.frame
  have hother : ∀ j, j ≠ k → s'.wakes j = s.wakes j := by
    intro j hj
    rcases wakes_of_settles hs with ⟨-, hw⟩ | ⟨-, w, -, hw⟩
    · rw [hw]
    · rw [hw, update_of_ne hj]
  refine ⟨fun co j hj => ?_, fun co => ?_, fun j hj => ?_, fun j hj hf => ?_, fun j hj hf => ?_⟩
  · rw [hcos] at hj
    have hjk : j ≠ k := fun hjk => hk co (hjk ▸ hj)
    rw [hs.fired_of_ne hjk]
    exact h.parked co j hj
  · rw [mutexTokens_of_settles hs, hcos]
    exact h.mutex co
  · rw [hnext] at hj
    rcases wakes_of_settles hs with ⟨-, hw⟩ | ⟨hf, w, -, hw⟩
    · rw [hw]
      exact h.fresh j hj
    · have hlt := (hcalls.call _ k (hs.call_of_fired hf)).1
      rw [hw, update_of_ne (by omega)]
      exact h.fresh j hj
  · have hjk : j ≠ k := fun hjk => by
      rw [hjk, hs.fired] at hf
      cases hf
    rw [hother j hjk]
    exact h.silent j (hnext ▸ hj) (hs.fired_of_ne hjk ▸ hf)
  · by_cases hjk : j = k
    · subst hjk
      rcases wakes_of_settles hs with ⟨hf, hw⟩ | ⟨hf, w, how, hw⟩
      · rw [hw]
        exact h.woken j (hnext ▸ hj) hf
      · refine ⟨w, ?_, how⟩
        rw [hw, update_self, h.silent j (hnext ▸ hj) hf]
        rfl
    · rw [hother j hjk]
      exact h.woken j (hnext ▸ hj) (hs.fired_of_ne hjk ▸ hf)

theorem setCo (h : s.Handed) {st : CoState} {coPid : ℕ → ℕ}
    (hold : (s.cos co).isParked = false) (hst : st.isParked = false) :
    { s.setCo co st with coPid := coPid }.Handed := by
  refine h.of_silent rfl rfl (fun _ => rfl) (fun co' k hk => ?_) fun co' => ?_
  · refine parked_setCo (fun j hj => ?_) co' k hk
    rw [hj] at hst
    cases hst
  · refine (h.mutex co').trans ?_
    simp only [State.setCo, update_apply]
    split_ifs with hc
    · rw [hc, hold, hst]
    · rfl

theorem mutexPost (h : s.Handed) {rest : List ℕ} (hw : s.mutexWaiters = co :: rest) :
    { s with mutexWaiters := rest, mutexResumes := s.mutexResumes ++ [co] }.Handed := by
  refine h.of_silent rfl rfl (fun _ => rfl) (fun _ _ hk => hk) fun co' => ?_
  rw [← h.mutex co']
  simp only [mutexTokens, hw, List.count_append, List.count_cons, List.count_nil]
  omega

theorem resumeMutex (h : s.Handed) (hm : co ∈ s.mutexResumes) :
    ({ s with mutexResumes := s.mutexResumes.erase co }.activate co .mutex).Handed := by
  have hpos : 0 < s.mutexResumes.count co := List.count_pos_iff.2 hm
  have hparked : (s.cos co).isParked = true := by
    have := h.mutex co
    unfold mutexTokens at this
    cases hp : (s.cos co).isParked with
    | true => rfl
    | false =>
      rw [hp, Bool.toNat_false] at this
      omega
  refine h.of_silent rfl ?_ (fun _ => rfl) (fun _ _ hk => hk) fun co' => ?_
  · have hnone : State.woken { s with mutexResumes := s.mutexResumes.erase co } co .mutex =
        none := by
      unfold State.woken
      cases hc : s.cos co with
      | parked i => simp only [if_true]
      | _ => simp [hc, CoState.isParked] at hparked
    simp only [State.activate, hnone]
  · rw [show ∀ t : State, (t.activate co .mutex).cos = t.cos from fun _ => rfl]
    rw [← h.mutex co']
    simp only [mutexTokens, State.activate, List.count_append, List.count_cons, List.count_nil,
      List.count_erase]
    by_cases hc : co' = co
    · subst hc
      simp
      omega
    · simp [Ne.symm hc]

theorem mutexTokens_erase (h : s.Handed) (hcalls : s.Calls)
    (ha : s.active.any (·.1 = co) = true) (co' : ℕ) :
    State.mutexTokens { s with active := s.active.eraseP (·.1 = co) } co' =
      if co' = co then 0 else (s.cos co').isParked.toNat := by
  obtain ⟨b, hb, hcount⟩ := Calls.exists_eraseP ha
  have hmutex := h.mutex co'
  have herase : (s.active.eraseP (·.1 = co)).count (co', .mutex) +
      (if b == (co', Wake.mutex) then 1 else 0) = s.active.count (co', .mutex) := hcount _
  show s.mutexWaiters.count co' + s.mutexResumes.count co' +
    (s.active.eraseP (·.1 = co)).count (co', .mutex) = _
  unfold mutexTokens at hmutex
  split_ifs with hc
  · subst hc
    have hle : (s.active.eraseP (·.1 = co')).count (co', .mutex) ≤
        (s.active.eraseP (·.1 = co')).countP (·.1 = co') := by
      refine List.countP_mono_left fun x _ hx => ?_
      rw [eq_of_beq hx]
      exact decide_eq_true rfl
    have hall := Calls.countP_eraseP ha co'
    have htokens := hcalls.tokens co'
    simp only [State.tokens, State.owed, if_true] at htokens hall
    cases hco : s.cos co' with
    | parked k =>
      simp only [hco, h.parked co' k hco, Bool.toNat_false] at htokens
      omega
    | blocked k =>
      simp only [hco, CoState.isParked, Bool.toNat_false] at hmutex
      omega
    | running | free =>
      simp only [hco] at htokens
      omega
  · have hne : ¬(b == (co', Wake.mutex)) = true := by
      intro he
      rw [eq_of_beq he] at hb
      exact hc hb
    rw [if_neg hne] at herase
    omega

theorem resumeCo (h : s.Handed) (hcalls : s.Calls) {again : Bool}
    (hs : EnvStep s (.resumeCo co again) s') : s'.Handed := by
  have ha : s.active.any (·.1 = co) = true := by
    cases hs with
    | again ha | acquire ha | leave ha => exact ha
  have hmutex := h.mutexTokens_erase hcalls ha
  -- a coroutine that is no longer parked
  have hupdate : ∀ st : CoState, st.isParked = false → ∀ co',
      (if co' = co then 0 else (s.cos co').isParked.toNat) =
        (update s.cos co st co').isParked.toNat := by
    intro st hst co'
    rw [update_apply]
    split_ifs
    · rw [hst]
      rfl
    · rfl
  cases hs with
  | @again _ k _ hco =>
    refine h.of_silent rfl rfl (fun _ => rfl) (fun _ _ hk => hk) fun co' => ?_
    have hold := hmutex co'
    simp only [mutexTokens, List.count_cons] at hold ⊢
    by_cases hc : co' = co
    · subst hc
      simp only [if_true, beq_self_eq_true, hco, CoState.isParked, Bool.toNat_true] at hold ⊢
      omega
    · simp only [if_neg hc, beq_iff_eq, if_neg (Ne.symm hc)] at hold ⊢
      exact hold
  | @acquire _ k _ hco =>
    refine h.of_silent rfl rfl (fun j => ?_) (fun co' j hj => ?_) fun co' => ?_
    · have hne : (s.tasks k).place ≠ .resumed := by
        rw [hcalls.parked co k hco]
        nofun
      refine Calls.fired_move ?_ (by nofun) j
      exact hne
    · exact parked_setCo (by nofun) co' j hj
    · exact (hmutex co').trans (hupdate (.blocked k) rfl co')
  | leave =>
    refine h.of_silent rfl rfl (fun _ => rfl) (fun co' j hj => ?_) fun co' => ?_
    · exact parked_setCo (by nofun) co' j hj
    · exact (hmutex co').trans (hupdate .running rfl co')

theorem step (h : s.Handed) (hcalls : s.Calls) {a : Action} (hok : pushedInTime s a = true)
    (hs : s.step a = some s') : s'.Handed := by
  cases a with
  | client a => exact h.client (clientStep_frame hs)
  | env a =>
    cases envStep_step hs with
    | tick => exact h.of_silent rfl rfl (fun _ => rfl) (fun _ _ hk => hk) h.mutex
    | startCoroutine hco | endCoroutine hco => exact h.setCo (by rw [hco]; rfl) rfl
    | callMethod =>
      obtain ⟨st, t, hi⟩ := Calls.issued_of_callMethod hs
      exact h.issued hcalls hi
    | park | push =>
      obtain ⟨st, t, hi⟩ := Calls.issued_of_innerCallMethod hs
      exact h.issued hcalls hi
    | mutexPost hw => exact h.mutexPost hw
    | resumeMutex hm => exact h.resumeMutex hm
    | @resumeCall k _ hs =>
      refine h.settles hcalls (hcalls.settles_of_resumeCall hs) fun co hco => ?_
      -- a call whose push waits has no message yet
      obtain ⟨err, w, hplace, -⟩ := resumeCall_spec hs
      rw [hcalls.parked co k hco] at hplace
      cases hplace
    | @timeout k =>
      refine h.settles hcalls (hcalls.settles_of_timeout hs) fun co hco => ?_
      have hkco := (hcalls.call co k (by rw [hco]; rfl)).2.1
      refine of_decide_eq_true hok ?_
      rw [hkco]
      exact hco
    | again | acquire | leave => exact h.resumeCo hcalls (envStep_step hs)

end State.Handed

end Corpc.Rpc
