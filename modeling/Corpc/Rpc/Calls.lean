/-
# Who may resume whom

A message, an entry of `waitResultCoMap_` and a response say which call they are for by the address
of the caller and the time at which the call expires.  Both can repeat.
-/

import Corpc.Rpc.Connections

namespace Corpc.Rpc

def Place.beforeSend : Place → Bool
  | .pushing | .requestQueue | .serving | .taskQueue => true
  | .waitSend _ | .taskHandle _ | .draining _ => true
  | _ => false

structure Wired (conns : ℕ → Connection) (k : ℕ) (t : RpcClientTask) : Prop where
  unsent : t.place.beforeSend = true → t.request = .unsent
  sent : ∀ c, t.place = .waitResult c → ∀ d, t.request.openOn d = true → d = c
  /-- the response to a call that is resumed was decoded or will not arrive -/
  closed : t.place = .resumed ∨ (∃ err w, t.place = .waitResume err w) →
    ∀ c, t.request.openOn c = true → (conns c).ended = true
  /-- a message is one of its call -/
  owned : ∀ err w, t.place = .waitResume err w → w.ownedBy k = true

namespace State

variable (s : State)

def awaits (k : ℕ) : Prop := (s.cos (s.tasks k).co).call = some k

def pending (k : ℕ) : Prop :=
  (s.tasks k).place.live = true ∨
    ∃ c, (s.tasks k).request.openOn c = true ∧ (s.conns c).ended = false

def fired (k : ℕ) : Bool :=
  if (s.tasks k).timed then k ∉ s.timeoutList else (s.tasks k).place = .resumed

def tokens (co : ℕ) : ℕ :=
  s.mutexWaiters.count co + s.mutexResumes.count co + s.active.countP (·.1 = co)

/-- What there has to be for a coroutine: one token while it waits for the mutex, and
one if its call is settled. -/
def owed (co : ℕ) : ℕ :=
  match s.cos co with
  | .free | .running => 0
  | .parked k => 1 + (s.fired k).toNat
  | .blocked k => (s.fired k).toNat

structure Calls (s : State) : Prop where
  fresh : ∀ k, s.next ≤ k → ¬s.pending k
  /-- a coroutine is in its last call -/
  call : ∀ co k, (s.cos co).call = some k → k < s.next ∧ (s.tasks k).co = co ∧
    ∀ j, j < s.next → (s.tasks j).co = co → j ≤ k
  parked : ∀ co k, s.cos co = .parked k → (s.tasks k).place = .pushing
  pushing : ∀ k, (s.tasks k).place = .pushing → s.cos (s.tasks k).co = .parked k
  wired : ∀ k, Wired s.conns k (s.tasks k)
  node : ∀ k, k ∈ s.timeoutList → (s.tasks k).timed = true ∧ s.awaits k
  nodup : s.timeoutList.Nodup
  tokens : ∀ co, s.tokens co = s.owed co
  untimed : ∀ k, s.pending k → (s.tasks k).timed = false → s.awaits k
  expired : ∀ k, s.pending k → (s.tasks k).timed = true → k ∉ s.timeoutList →
    (s.tasks k).expireTime ≤ s.now
  /-- a later call of the address expires later than one that is still pending -/
  order : ∀ j k, j < k → k < s.next → (s.tasks j).co = (s.tasks k).co →
    (s.tasks j).timed = true → (s.tasks k).timed = true → s.pending j →
      (s.tasks j).expireTime < (s.tasks k).expireTime

end State

namespace State.Calls

variable {s s' : State} {j k c co : ℕ}

theorem lt_next (h : s.Calls) (hk : s.pending k) : k < s.next :=
  not_le.1 fun hle => h.fresh k hle hk

theorem awaits_lt (h : s.Calls) (hk : s.awaits k) : k < s.next := (h.call _ k hk).1

theorem awaits_unique (hj : s.awaits j) (hk : s.awaits k)
    (hco : (s.tasks j).co = (s.tasks k).co) : j = k := by
  unfold awaits at hj hk
  rw [hco, hk] at hj
  exact (Option.some.inj hj).symm

theorem timed_congr {t t' : RpcClientTask} (h : t.expireTime = t'.expireTime) :
    t.timed = t'.timed := by
  unfold RpcClientTask.timed
  rw [h]

theorem pending_unique (h : s.Calls) (hj : s.pending j) (hk : s.pending k)
    (hco : (s.tasks j).co = (s.tasks k).co)
    (hexp : (s.tasks j).expireTime = (s.tasks k).expireTime) : j = k := by
  have htimed := timed_congr hexp
  cases ht : (s.tasks k).timed with
  | false =>
    exact awaits_unique (h.untimed j hj (htimed.trans ht)) (h.untimed k hk ht) hco
  | true =>
    rcases lt_trichotomy j k with hlt | heq | hlt
    · have := h.order j k hlt (h.lt_next hk) hco (htimed.trans ht) ht hj
      omega
    · exact heq
    · have := h.order k j hlt (h.lt_next hj) hco.symm ht (htimed.trans ht) hk
      omega

/-- **The entry that a response finds is the one of its call.** -/
theorem call_of_frame (h : s.Calls) {f : Frame} (hk : (s.tasks k).place = .waitResult c)
    (hj : (s.tasks j).request = .answered c f) (hopen : (s.conns c).ended = false)
    (hco : (s.tasks k).co = (s.tasks j).co)
    (hexp : (s.tasks k).expireTime = (s.tasks j).expireTime) : k = j := by
  refine h.pending_unique (.inl ?_) (.inr ⟨c, ?_, hopen⟩) hco hexp
  · rw [hk]
    rfl
  · rw [hj]
    exact decide_eq_true rfl

/-- **The node that a message finds is the one of its call.** -/
theorem call_of_node (h : s.Calls) {n : ℕ} (hk : s.pending k) (hn : n ∈ s.timeoutList)
    (hco : (s.tasks n).co = (s.tasks k).co)
    (hexp : (s.tasks n).expireTime = (s.tasks k).expireTime) : n = k := by
  obtain ⟨hnt, hna⟩ := h.node n hn
  have hkt := (timed_congr hexp).symm.trans hnt
  -- the caller is in call n, so call k is not a later one
  have hle : k ≤ n := (h.call _ n hna).2.2 k (h.lt_next hk) hco.symm
  rcases Nat.lt_or_ge k n with hlt | hge
  · have := h.order k n hlt (h.awaits_lt hna) hco.symm hkt hnt hk
    omega
  · omega

end State.Calls

/-- No call is made, no task comes back, and a call ends only where nothing of it is
left, or by its time-out. -/
structure Keeps (s s' : State) : Prop where
  next : s'.next = s.next
  now : s.now ≤ s'.now
  const : ∀ j, (s'.tasks j).co = (s.tasks j).co ∧ (s'.tasks j).expireTime = (s.tasks j).expireTime
  pending : ∀ j, s'.pending j → s.pending j
  call : ∀ co k, (s'.cos co).call = some k → (s.cos co).call = some k
  stays : ∀ k, s.awaits k → (k ∈ s'.timeoutList ∨ s'.pending k ∧ (s.tasks k).timed = false) →
    s'.awaits k
  list : ∀ k, k ∈ s'.timeoutList → k ∈ s.timeoutList
  nodup : s'.timeoutList.Nodup
  expired : ∀ k, s'.pending k → k ∈ s.timeoutList → k ∉ s'.timeoutList →
    (s.tasks k).expireTime ≤ s'.now

namespace Keeps

variable {s s' : State}

theorem timed (hk : Keeps s s') (j : ℕ) : (s'.tasks j).timed = (s.tasks j).timed :=
  State.Calls.timed_congr (hk.const j).2

theorem calls (hk : Keeps s s') (h : s.Calls)
    (hparked : ∀ co k, s'.cos co = .parked k → (s'.tasks k).place = .pushing)
    (hpushing : ∀ k, (s'.tasks k).place = .pushing → s'.cos (s'.tasks k).co = .parked k)
    (hwired : ∀ k, Wired s'.conns k (s'.tasks k))
    (htokens : ∀ co, s'.tokens co = s'.owed co) : s'.Calls := by
  refine ⟨?_, ?_, hparked, hpushing, hwired, ?_, hk.nodup, htokens, ?_, ?_, ?_⟩
  · intro k hle hp
    exact h.fresh k (hk.next ▸ hle) (hk.pending k hp)
  · intro co k hc
    obtain ⟨hlt, hco, hle⟩ := h.call co k (hk.call co k hc)
    refine ⟨hk.next ▸ hlt, (hk.const k).1.trans hco, fun j hj hjco => hle j (hk.next ▸ hj) ?_⟩
    exact (hk.const j).1.symm.trans hjco
  · intro k hm
    obtain ⟨ht, ha⟩ := h.node k (hk.list k hm)
    exact ⟨(hk.timed k).trans ht, hk.stays k ha (.inl hm)⟩
  · intro k hp ht
    have ht' := (hk.timed k).symm.trans ht
    exact hk.stays k (h.untimed k (hk.pending k hp) ht') (.inr ⟨hp, ht'⟩)
  · intro k hp ht hn
    rw [(hk.const k).2]
    by_cases hm : k ∈ s.timeoutList
    · exact hk.expired k hp hm hn
    · exact (h.expired k (hk.pending k hp) ((hk.timed k).symm.trans ht) hm).trans hk.now
  · intro j k hlt hkn hco hjt hkt hj
    rw [(hk.const j).2, (hk.const k).2]
    rw [(hk.const j).1, (hk.const k).1] at hco
    exact h.order j k hlt (hk.next ▸ hkn) hco ((hk.timed j).symm.trans hjt)
      ((hk.timed k).symm.trans hkt) (hk.pending j hj)

end Keeps

theorem wired_of_unsent {conns : ℕ → Connection} {k : ℕ} {t : RpcClientTask}
    (hr : t.request = .unsent)
    (ho : ∀ err w, t.place = .waitResume err w → w.ownedBy k = true) : Wired conns k t :=
  ⟨fun _ => hr, fun _ _ _ hd => (by rw [hr] at hd; cases hd),
    fun _ _ hd => (by rw [hr] at hd; cases hd), ho⟩

end Corpc.Rpc
