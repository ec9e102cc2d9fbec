/-
# Connections that were initialised

A caller of `RedisConnectPool` relies on `AUTH` and `SELECT` having succeeded on what it gets.
`take` sends both after it connected, and looks only at whether there is a reply, so an error
reply passes.  `put` sends neither after it reconnected for a waiting coroutine.
-/

import Corpc.Pool.Accounting

namespace Corpc.Pool

open Corpc.Basis List

def Initialised (passwd : String) (dbIndex : UInt16) (ops : List Op) : Prop :=
  (passwd ≠ "" → .auth ∈ ops) ∧ (dbIndex ≠ 0 → .select ∈ ops)

instance (passwd : String) (dbIndex : UInt16) (ops : List Op) :
    Decidable (Initialised passwd dbIndex ops) :=
  inferInstanceAs (Decidable (_ ∧ _))

theorem initialised_takeOps (passwd : String) (dbIndex : UInt16) :
    Initialised passwd dbIndex (RedisConnectPool passwd dbIndex).takeOps := by
  constructor
  · intro hne
    simp [RedisConnectPool, hne]
  · intro hne
    simp [RedisConnectPool, hne]

theorem initialised_of_plain {passwd : String} {dbIndex : UInt16} (hp : passwd = "")
    (hd : dbIndex = 0) (ops : List Op) : Initialised passwd dbIndex ops :=
  ⟨fun hne => absurd hp hne, fun hne => absurd hd hne⟩

namespace State

variable {passwd : String} {dbIndex : UInt16} {maxConnectNum : UInt32} {s s' : State}

/-- A connection is not put back with an error while a coroutine waits, unless there is nothing to
initialise, and no command is answered with an error reply. -/
def initialises (passwd : String) (dbIndex : UInt16) (s : State) : Action → Bool
  | .put _ true => s.waitingList = [] || (passwd = "" && dbIndex = 0)
  | .returns _ .errorReply => false
  | _ => true

/-- The connections in the pool are initialised, and those that are being opened will be. -/
structure Ready (passwd : String) (dbIndex : UInt16) (s : State) : Prop where
  handles : ∀ x ∈ s.handles, Initialised passwd dbIndex (s.inits x)
  openings : ∀ o ∈ s.openings, Initialised passwd dbIndex (o.inits ++ o.rest)

theorem ok_of_failure_eq_none {op : Op} {outcome : Outcome}
    (hok : (RedisConnectPool passwd dbIndex).failure op outcome = none)
    (hreply : outcome ≠ .errorReply) : outcome = .ok := by
  cases outcome with
  | ok => rfl
  | errorReply => exact absurd rfl hreply
  | error text | null => cases op <;> cases hok

namespace Ready

theorem goOn (h : s.Ready passwd dbIndex) {owner : Opener} {o : Opening}
    (ho : s.openings.find? (·.owner = owner) = some o) :
    Initialised passwd dbIndex (o.inits ++ o.rest) :=
  h.openings o (mem_of_find?_eq_some ho)

theorem unopen (h : s.Ready passwd dbIndex) (owner : Opener) :
    ∀ o ∈ (s.unopen owner).openings, Initialised passwd dbIndex (o.inits ++ o.rest) :=
  fun o ho => h.openings o (mem_of_mem_eraseP ho)

theorem step (h : s.Ready passwd dbIndex) (hacc : s.Accounted maxConnectNum) {a : Action}
    (ha : s.initialises passwd dbIndex a = true)
    (hs : s.step (RedisConnectPool passwd dbIndex) maxConnectNum a = some s') :
    s'.Ready passwd dbIndex := by
  have hinits : ∀ ops x, x ∈ s.handles → Initialised passwd dbIndex
      (Function.update s.inits s.nextHandle ops x) := by
    intro ops x hx
    rw [Function.update_of_ne (Nat.ne_of_lt (hacc.fresh x hx))]
    exact h.handles x hx
  have happend : ∀ o, Initialised passwd dbIndex (o.inits ++ o.rest) →
      ∀ o' ∈ s.openings ++ [o], Initialised passwd dbIndex (o'.inits ++ o'.rest) := by
    intro o ho o' ho'
    rcases mem_append.1 ho' with ho' | ho'
    · exact h.openings o' ho'
    · rwa [mem_singleton.1 ho']
  cases State.move_of_step hacc hs with
  | takeIdle hk hi =>
    exact ⟨fun x hx => h.handles x ((handles_deliver_back hi _).mem_iff.1 hx), h.openings⟩
  | takeOpen hk hi hlt => exact ⟨h.handles, happend _ (initialised_takeOps passwd dbIndex)⟩
  | takeWait hk hi hlt | tick n => exact ⟨h.handles, h.openings⟩
  | putKeep hy hw =>
    refine ⟨fun x hx => h.handles x ?_, h.openings⟩
    exact (handles_unlend hy).mem_iff.1 ((handles_keep (s := s.unlend _) _).mem_iff.1 hx)
  | putPass hy hw hi =>
    refine ⟨fun x hx => h.handles x ?_, h.openings⟩
    exact (handles_unlend hy).mem_iff.1 ((handles_deliver (s := s.unlend _) _ _).mem_iff.1 hx)
  | putClose hy hw =>
    refine ⟨fun x hx => h.handles x ?_, h.openings⟩
    exact (handles_unlend hy).mem_iff.1 (mem_cons_of_mem _ hx)
  | putReopen hy hw hi =>
    -- the condition leaves nothing to initialise
    have hplain : passwd = "" ∧ dbIndex = 0 := by simpa [initialises, hw] using ha
    have hall := initialised_of_plain hplain.1 hplain.2
    exact ⟨fun x _ => hall _, fun o _ => hall _⟩
  | refuse ho hrest hfail hi => exact ⟨h.handles, h.unopen _⟩
  | refuseIdle ho hrest hfail hw hi =>
    exact ⟨fun x hx => h.handles x ((handles_deliver_back hi _).mem_iff.1 hx), h.unopen _⟩
  | create ho hrest hok =>
    have hinit := h.goOn ho
    rw [hrest] at hinit
    obtain rfl := ok_of_failure_eq_none hok (by rintro rfl; cases ha)
    refine ⟨fun x hx => ?_, h.unopen _⟩
    rcases mem_cons.1 ((handles_deliver _ _).mem_iff.1 hx) with rfl | hx
    · simpa only [State.deliver, Function.update_self, if_true] using hinit
    · exact hinits _ x hx
  | goOn ho hrest hok hne =>
    have hinit := h.goOn ho
    rw [hrest] at hinit
    obtain rfl := ok_of_failure_eq_none hok (by rintro rfl; cases ha)
    refine ⟨h.handles, fun o' ho' => ?_⟩
    rcases mem_append.1 ho' with ho' | ho'
    · exact h.unopen _ o' ho'
    · rw [mem_singleton.1 ho', if_pos rfl]
      simpa using hinit
  | clearIdle =>
    have hcount := hacc.count
    exact ⟨fun x hx => h.handles x ((handles_clearIdle (by omega)).subset hx), h.openings⟩

end Ready
end State

/-- **A connection that `RedisConnectPool` lends is initialised**, if none is put back with an error
while a coroutine waits and no command is answered with an error reply. -/
theorem lent_initialised (passwd : String) (dbIndex : UInt16) (maxConnectNum : UInt32)
    (as : List Action) (s : State) (h : run (restrict (State.initialises passwd dbIndex)
      (State.step (RedisConnectPool passwd dbIndex) maxConnectNum)) State.init as = some s) :
    ∀ p ∈ s.delivered, Initialised passwd dbIndex (s.inits p.1) := by
  have hinv : s.Accounted maxConnectNum ∧ s.Ready passwd dbIndex := by
    refine run_restrict_invariant (I := fun t => t.Accounted maxConnectNum ∧
      t.Ready passwd dbIndex) ?_ ⟨State.accounted_init, ?_⟩ h
    · intro t a t' ht ha hs
      exact ⟨ht.1.step hs, ht.2.step ht.1 ha hs⟩
    · exact ⟨fun x hx => absurd hx not_mem_nil, fun o ho => absurd ho not_mem_nil⟩
  intro p hp
  exact hinv.2.handles p.1 (mem_append_right _ (mem_map_of_mem hp))

def lentTwice : List Action :=
  [.take 0, .returns (.take 0) .ok, .returns (.take 0) .ok, .returns (.take 0) .ok, .put 0 false,
    .take 1]

theorem lent_initialised_lentTwice : ∃ s,
    run (restrict (State.initialises "secret" 1) (State.step (RedisConnectPool "secret" 1) 1))
      State.init lentTwice = some s ∧ s.delivered = [(0, 1)] ∧
      ∀ p ∈ s.delivered, Initialised "secret" 1 (s.inits p.1) := by
  exact exists_run_and (by decide +kernel) fun s hs _ =>
    lent_initialised "secret" 1 1 lentTwice s hs

/-- The caller that waited gets a connection that was only connected. -/
theorem reconnected_not_initialised : ∃ s,
    run (State.step (RedisConnectPool "secret" 1) 1) State.init
      [.take 0, .returns (.take 0) .ok, .returns (.take 0) .ok, .returns (.take 0) .ok, .take 1,
        .put 0 true, .returns (.put 1) .ok] = some s ∧
      s.delivered = [(1, 1)] ∧ s.inits 1 = [.connect] ∧ ¬Initialised "secret" 1 (s.inits 1) := by
  exact exists_run_of_decide (by decide +kernel)

end Corpc.Pool
