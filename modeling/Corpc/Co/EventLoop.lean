/-
# Timers go off on time

Source: `co_routine.cpp`, `co_eventloop` with `AddTimeout`, `TakeAllTimeout`, `OnPollPreparePfn`.

A round of the event loop waits for events, moves what they activate to the active list, takes the
timers of the slots up to now out of the wheel with `bTimeout` set, and goes through the active
list.
-/

import Corpc.Co.TimeWheel

namespace Corpc.Co

open Corpc.Basis Function List Option Nat

variable {ι : Type*}

namespace Timeout

variable {w : Timeout ι} {item : TimeoutItem ι} {idx : ℕ}

theorem mem_takeSlot_of_mem {apResult : List (TimeoutItem ι)} (h : item ∈ apResult) (idx : ℕ) :
    item ∈ (w.takeSlot idx apResult).2 := by
  unfold takeSlot
  split_ifs
  · exact mem_append_left _ h
  · exact h

theorem mem_takeSlot (h : item ∈ w.pItems idx) (apResult : List (TimeoutItem ι)) :
    item ∈ (w.takeSlot idx apResult).2 := by
  rw [takeSlot, if_pos (ne_nil_of_mem h)]
  exact mem_append_right _ h

theorem mem_takeSlots (h : item ∈ w.pItems idx) (apResult : List (TimeoutItem ι)) {n : ℕ}
    (hvisited : w.Visited n idx) : item ∈ (w.takeSlots apResult n).2 := by
  induction n with
  | zero =>
    obtain ⟨i, hi, _⟩ := hvisited
    exact absurd hi (not_lt_zero i)
  | succ n ih =>
    by_cases hbefore : w.Visited n idx
    · exact mem_takeSlot_of_mem (ih hbefore) _
    · -- the round of the slot itself: nothing was taken out of it before
      obtain rfl := ((w.visited_succ n idx).1 hvisited).resolve_left hbefore
      refine mem_takeSlot ?_ _
      rw [((w.takeSlots_taken apResult n).kept _ hbefore).1]
      exact h

theorem Placed.visited (h : w.Placed) (hitem : item ∈ w.pItems idx) {allNow : ℕ}
    (hdue : item.ullExpireTime ≤ allNow) :
    w.Visited (min (allNow - w.ullStart + 1) w.iItemSize) idx := by
  obtain ⟨d, hd, hidx, htime⟩ := h.placed idx item hitem
  exact ⟨d, by omega, hidx⟩

end Timeout

namespace Timers

variable [DecidableEq ι] {t : Timers ι} {item : TimeoutItem ι} {idx allNow : ℕ}

theorem addTimeout_ullStart (h : t.pTimeout.Placed) (apItem : TimeoutItem ι) (allNow : ℕ) :
    (t.addTimeout apItem allNow).2.pTimeout.ullStart = t.pTimeout.ullStart := by
  simp only [addTimeout, h.start allNow, addTail]
  split_ifs <;> rfl

theorem mem_addTimeout (h : t.pTimeout.Placed) (hitem : item ∈ t.pTimeout.pItems idx)
    (apItem : TimeoutItem ι) (allNow : ℕ) :
    item ∈ (t.addTimeout apItem allNow).2.pTimeout.pItems idx := by
  simp only [addTimeout, h.start allNow, addTail]
  split_ifs
  · exact hitem
  · exact hitem
  · exact hitem
  · show item ∈ update t.pTimeout.pItems _ _ idx
    by_cases hidx : idx = t.pTimeout.slotOf apItem.ullExpireTime
    · subst hidx
      rw [update_self]
      exact mem_append_left _ hitem
    · rwa [update_of_ne hidx]

theorem addTimeout_adds (h : t.pTimeout.Placed) (hlink : t.pLink item.address = none)
    (hnow : t.pTimeout.ullStart ≤ allNow) (hdue : allNow ≤ item.ullExpireTime) :
    (t.addTimeout item allNow).1 = true ∧
      ∃ idx, item ∈ (t.addTimeout item allNow).2.pTimeout.pItems idx := by
  simp only [addTimeout, h.start allNow, if_neg (not_lt.2 hnow), if_neg (not_lt.2 hdue),
    addTail, hlink]
  refine ⟨trivial, t.pTimeout.slotOf item.ullExpireTime, ?_⟩
  show item ∈ update t.pTimeout.pItems _ _ _
  rw [update_self]
  exact mem_append_right _ (mem_singleton_self item)

theorem removeFromLink_ullStart (t : Timers ι) (a : ι) :
    (t.removeFromLink a).pTimeout.ullStart = t.pTimeout.ullStart := by
  unfold removeFromLink
  split <;> rfl

theorem mem_removeFromLink (hitem : item ∈ t.pTimeout.pItems idx) {a : ι}
    (hne : item.address ≠ a) : item ∈ (t.removeFromLink a).pTimeout.pItems idx := by
  unfold removeFromLink
  split
  · exact hitem
  · exact hitem
  · rename_i place _
    show item ∈ update t.pTimeout.pItems place _ idx
    by_cases hidx : idx = place
    · subst hidx
      rw [update_self]
      exact mem_filter.2 ⟨hitem, decide_eq_true hne⟩
    · rwa [update_of_ne hidx]

theorem takeAllTimeout_eq (h : t.pTimeout.Placed) (hnow : t.pTimeout.ullStart ≤ allNow)
    (hfits : allNow - t.pTimeout.ullStart + 1 < 2 ^ 31) :
    ∃ n, n = min (allNow - t.pTimeout.ullStart + 1) t.pTimeout.iItemSize ∧
      (t.takeAllTimeout allNow).1 = (t.pTimeout.takeSlots [] n).2 ∧
      (t.takeAllTimeout allNow).2.pTimeout = (t.pTimeout.takeSlots [] n).1.turn allNow n := by
  have hcnt := Timeout.cnt_eq hnow hfits
  refine ⟨_, rfl, ?_⟩
  simp only [takeAllTimeout, h.start allNow, if_neg (not_lt.2 hnow), hcnt, Int.toNat_natCast]
  rw [if_neg (by omega)]
  exact ⟨rfl, rfl⟩

/-- **What is due is taken out of the wheel, and nothing is lost.** -/
theorem takeAllTimeout_takes (h : t.pTimeout.Placed) (hnow : t.pTimeout.ullStart ≤ allNow)
    (hfits : allNow - t.pTimeout.ullStart + 1 < 2 ^ 31) (hitem : item ∈ t.pTimeout.pItems idx) :
    (item.ullExpireTime ≤ allNow → item ∈ (t.takeAllTimeout allNow).1) ∧
      (item ∈ (t.takeAllTimeout allNow).1 ∨
        item ∈ (t.takeAllTimeout allNow).2.pTimeout.pItems idx) := by
  obtain ⟨n, hn, hresult, hwheel⟩ := takeAllTimeout_eq h hnow hfits
  rw [hresult, hwheel]
  constructor
  · intro hdue
    exact Timeout.mem_takeSlots hitem [] (hn ▸ h.visited hitem hdue)
  · by_cases hvisited : t.pTimeout.Visited n idx
    · exact Or.inl (Timeout.mem_takeSlots hitem [] hvisited)
    · refine Or.inr ?_
      show item ∈ (t.pTimeout.takeSlots [] n).1.pItems idx
      rwa [((t.pTimeout.takeSlots_taken [] n).kept idx hvisited).1]

theorem lt_of_mem_takeAllTimeout (h : t.pTimeout.Placed) (hnow : t.pTimeout.ullStart ≤ allNow)
    (hfits : allNow - t.pTimeout.ullStart + 1 < 2 ^ 31)
    (hitem : item ∈ (t.takeAllTimeout allNow).2.pTimeout.pItems idx) :
    allNow < item.ullExpireTime := by
  obtain ⟨n, hn, -, hwheel⟩ := takeAllTimeout_eq h hnow hfits
  rw [hwheel] at hitem
  obtain ⟨hnot, hold⟩ := (t.pTimeout.takeSlots_taken [] n).mem_left hitem
  by_contra hdue
  exact hnot (hn ▸ h.visited hold (not_lt.1 hdue))

end Timers

/-- `co_eventloop` between its statements.  `now` is the time of the last round, `timedOut` lists
what was processed with `bTimeout`, with the time of its round. -/
structure EventLoop (ι : Type*) where
  timers : Timers ι
  /-- `GetTickMS()` -/
  clock : ℕ
  now : ℕ
  /-- after `co_epoll_wait` and before `TakeAllTimeout` -/
  polling : Bool
  active : List (TimeoutItem ι × Bool)
  timedOut : List (TimeoutItem ι × ℕ)

inductive LoopOp (ι : Type*)
  | tick (ms : ℕ)
  | addTimeout (apItem : TimeoutItem ι)
  | removeFromLink (a : ι)
  /-- `OnPollPreparePfn`, or a routine that wakes another one up.  The `bTimeout` of an item that
  no round has set is what its owner left there. -/
  | event (apItem : TimeoutItem ι) (bTimeout : Bool)
  /-- `co_epoll_wait` -/
  | wait
  /-- `TakeAllTimeout`, `bTimeout = true` and `Join` -/
  | takeAllTimeout
  | next

namespace EventLoop

/-- `co_eventloop` with a wheel that was allocated at the time `start`. -/
def init (w : Timeout ι) (start : ℕ) : EventLoop ι where
  timers := .fresh w
  clock := start
  now := start
  polling := false
  active := []
  timedOut := []

/-- `lp->pfnProcess(lp)` -/
def process (s : EventLoop ι) (lp : TimeoutItem ι) (bTimeout : Bool) : EventLoop ι :=
  { s with timedOut := if bTimeout then s.timedOut ++ [(lp, s.now)] else s.timedOut }

/-- The wheel starts at the time of the round, and nothing was processed before its time. -/
structure OnTime (s : EventLoop ι) : Prop where
  placed : s.timers.pTimeout.Placed
  start : s.timers.pTimeout.ullStart = s.now
  clock : s.now ≤ s.clock
  notEarly : ∀ p ∈ s.timedOut, p.1.ullExpireTime ≤ p.2

def Settled (s : EventLoop ι) (item : TimeoutItem ι) : Prop :=
  if item.ullExpireTime ≤ s.now then (item, s.now) ∈ s.timedOut
  else ∃ idx, item ∈ s.timers.pTimeout.pItems idx

def Pending (s : EventLoop ι) (item : TimeoutItem ι) : Prop :=
  (item, true) ∈ s.active ∨ s.Settled item

section Process

variable {s : EventLoop ι} {item : TimeoutItem ι}

theorem OnTime.process (h : s.OnTime) {lp : TimeoutItem ι} {bTimeout : Bool}
    (hdue : bTimeout = true → lp.ullExpireTime ≤ s.now) : (s.process lp bTimeout).OnTime := by
  refine ⟨h.placed, h.start, h.clock, fun p hp => ?_⟩
  cases bTimeout with
  | false => exact h.notEarly p hp
  | true =>
    rcases mem_append.1 hp with hp | hp
    · exact h.notEarly p hp
    · rw [mem_singleton.1 hp]
      exact hdue rfl

theorem OnTime.range (h : s.OnTime) (hsteady : s.clock - s.now < 2 ^ 31 - 1) :
    s.timers.pTimeout.ullStart ≤ s.clock ∧ s.clock - s.timers.pTimeout.ullStart + 1 < 2 ^ 31 := by
  have hclock := h.clock
  rw [h.start]
  omega

theorem Settled.mono {u : EventLoop ι} (h : s.Settled item) (hnow : u.now = s.now)
    (hout : s.timedOut ⊆ u.timedOut) (hwheel : ∀ idx, item ∈ s.timers.pTimeout.pItems idx →
      item ∈ u.timers.pTimeout.pItems idx) : u.Settled item := by
  unfold Settled at h ⊢
  rw [hnow]
  split_ifs at h ⊢
  · exact hout h
  · exact h.imp hwheel

theorem timedOut_subset_process (s : EventLoop ι) (lp : TimeoutItem ι) (bTimeout : Bool) :
    s.timedOut ⊆ (s.process lp bTimeout).timedOut := by
  cases bTimeout with
  | false => exact List.Subset.refl _
  | true => exact subset_append_left _ _

theorem onTime_init {w : Timeout ι} {iSize start : ℕ} (hstart : 0 < start)
    (hw : allocTimeout ι iSize start = some w) : (init w start).OnTime := by
  unfold allocTimeout at hw
  split_ifs at hw
  cases hw
  refine ⟨⟨hstart, ?_, ?_⟩, rfl, le_refl _, ?_⟩
  · exact fun _ _ hitem => absurd hitem not_mem_nil
  · exact fun _ _ hitem => absurd hitem not_mem_nil
  · exact fun _ hp => absurd hp not_mem_nil

end Process

variable [DecidableEq ι]

def removeFromLink (s : EventLoop ι) (a : ι) : EventLoop ι :=
  { s with
    timers := s.timers.removeFromLink a
    active := s.active.filter (·.1.address ≠ a) }

def addTail (s : EventLoop ι) (apItem : TimeoutItem ι) (bTimeout : Bool) : EventLoop ι :=
  { s with
    timers := { s.timers with pLink := update s.timers.pLink apItem.address (some .list) }
    active := s.active ++ [(apItem, bTimeout)] }

def takeAllTimeout (s : EventLoop ι) : EventLoop ι :=
  let (timeout, timers) := s.timers.takeAllTimeout s.clock
  { s with
    timers := timers
    now := s.clock
    polling := false
    active := s.active ++ timeout.map (·, true) }

def next (s : EventLoop ι) : Option (EventLoop ι) :=
  match s.active with
  | [] => none
  | (lp, bTimeout) :: active =>
    -- PopHead
    let timers := { s.timers with pLink := update s.timers.pLink lp.address none }
    if bTimeout ∧ s.now < lp.ullExpireTime then
      let (added, timers) := timers.addTimeout lp s.now
      if added then some { s with timers := timers, active := active }
      else some ({ s with timers := timers, active := active }.process lp bTimeout)
    else some ({ s with timers := timers, active := active }.process lp bTimeout)

def step (s : EventLoop ι) : LoopOp ι → Option (EventLoop ι)
  | .tick ms => some { s with clock := s.clock + ms }
  | .addTimeout apItem =>
    if s.clock ≤ apItem.ullExpireTime then
      some { s with timers := (s.timers.addTimeout apItem s.clock).2 }
    else none
  | .removeFromLink a => some (s.removeFromLink a)
  | .event apItem bTimeout => some ((s.removeFromLink apItem.address).addTail apItem bTimeout)
  | .wait => if s.polling = false ∧ s.active = [] then some { s with polling := true } else none
  | .takeAllTimeout => if s.polling then some s.takeAllTimeout else none
  | .next => if s.polling = false then s.next else none

/-- The clock goes on by less than `2 ^ 31 - 1` milliseconds from round to round. -/
def steady (s : EventLoop ι) : LoopOp ι → Bool
  | .takeAllTimeout => s.clock - s.now < 2 ^ 31 - 1
  | _ => true

/-- The rest of a round, without events for the item at `a`. -/
def leaves (a : ι) : LoopOp ι → Bool
  | .takeAllTimeout => false
  | .event apItem _ => apItem.address ≠ a
  | .removeFromLink a' => a' ≠ a
  | _ => true

variable {s s' : EventLoop ι}

theorem OnTime.takeAllTimeout (h : s.OnTime) (hsteady : s.clock - s.now < 2 ^ 31 - 1) :
    s.takeAllTimeout.OnTime := by
  obtain ⟨hnow, hfits⟩ := h.range hsteady
  refine ⟨Timers.takeAllTimeout_placed h.placed hfits, ?_, le_refl _, h.notEarly⟩
  obtain ⟨n, -, -, hwheel⟩ := Timers.takeAllTimeout_eq h.placed hnow hfits
  show (s.timers.takeAllTimeout s.clock).2.pTimeout.ullStart = s.clock
  rw [hwheel]
  rfl

/-- **One turn of the loop over the active list**: an item that is not due is put back, any other
one is processed. -/
theorem OnTime.next (h : s.OnTime) (hnext : s.next = some s') : s'.OnTime ∧ s'.now = s.now ∧
    ∀ item, s.Pending item → s'.Pending item := by
  unfold EventLoop.next at hnext
  cases hactive : s.active with
  | nil => simp [hactive] at hnext
  | cons head active =>
    obtain ⟨lp, bTimeout⟩ := head
    rw [hactive] at hnext
    dsimp only at hnext
    generalize htimers : ({ s.timers with
      pLink := update s.timers.pLink lp.address none } : Timers ι) = timers at hnext
    have hwheel : timers.pTimeout = s.timers.pTimeout := by rw [← htimers]
    have hlink : timers.pLink lp.address = none := by
      rw [← htimers]
      exact update_self ..
    have hplaced : timers.pTimeout.Placed := hwheel ▸ h.placed
    have hstart : timers.pTimeout.ullStart = s.now := hwheel ▸ h.start
    split_ifs at hnext with hback hadded
    · -- put back
      cases hnext
      obtain ⟨idx, hmem⟩ := (Timers.addTimeout_adds hplaced hlink (le_of_eq hstart)
        (le_of_lt hback.2)).2
      refine ⟨⟨Timers.addTimeout_placed hplaced lp s.now, ?_, h.clock, h.notEarly⟩, rfl, ?_⟩
      · exact (Timers.addTimeout_ullStart hplaced lp s.now).trans hstart
      · rintro item (hitem | hitem)
        · rw [hactive] at hitem
          rcases mem_cons.1 hitem with heq | hrest
          · obtain ⟨rfl, -⟩ := Prod.mk.inj heq
            refine Or.inr ?_
            rw [Settled, if_neg (not_le.2 hback.2)]
            exact ⟨idx, hmem⟩
          · exact Or.inl hrest
        · exact Or.inr (hitem.mono rfl (List.Subset.refl _) fun _ hmem =>
            Timers.mem_addTimeout hplaced (hwheel ▸ hmem) lp s.now)
    · -- it can always be put back
      exact absurd (Timers.addTimeout_adds hplaced hlink (le_of_eq hstart)
        (le_of_lt hback.2)).1 hadded
    · cases hnext
      have hdue : bTimeout = true → lp.ullExpireTime ≤ s.now :=
        fun hb => not_lt.1 fun hlt => hback ⟨hb, hlt⟩
      have hpopped : ({ s with timers := timers, active := active } : EventLoop ι).OnTime :=
        ⟨hplaced, hstart, h.clock, h.notEarly⟩
      refine ⟨hpopped.process hdue, rfl, ?_⟩
      rintro item (hitem | hitem)
      · rw [hactive] at hitem
        rcases mem_cons.1 hitem with heq | hrest
        · obtain ⟨rfl, rfl⟩ := Prod.mk.inj heq
          refine Or.inr ?_
          unfold Settled
          rw [if_pos (by exact hdue rfl)]
          exact mem_append_right _ (mem_singleton_self _)
        · exact Or.inl hrest
      · exact Or.inr (hitem.mono rfl (timedOut_subset_process _ lp bTimeout) fun _ hmem =>
          hwheel ▸ hmem)

theorem OnTime.step {op : LoopOp ι} (h : s.OnTime) (hsteady : s.steady op = true)
    (hstep : s.step op = some s') : s'.OnTime := by
  cases op with
  | tick ms =>
    cases hstep
    exact ⟨h.placed, h.start, le_add_right_of_le h.clock, h.notEarly⟩
  | addTimeout apItem =>
    obtain ⟨-, rfl⟩ := ite_some_none_eq_some.1 hstep
    exact ⟨Timers.addTimeout_placed h.placed apItem s.clock,
      (Timers.addTimeout_ullStart h.placed apItem s.clock).trans h.start, h.clock, h.notEarly⟩
  | removeFromLink a =>
    cases hstep
    exact ⟨Timers.removeFromLink_placed h.placed a,
      (s.timers.removeFromLink_ullStart a).trans h.start, h.clock, h.notEarly⟩
  | event apItem bTimeout =>
    cases hstep
    exact ⟨Timers.removeFromLink_placed h.placed apItem.address,
      (s.timers.removeFromLink_ullStart apItem.address).trans h.start, h.clock, h.notEarly⟩
  | wait =>
    obtain ⟨-, rfl⟩ := ite_some_none_eq_some.1 hstep
    exact ⟨h.placed, h.start, h.clock, h.notEarly⟩
  | takeAllTimeout =>
    obtain ⟨-, rfl⟩ := ite_some_none_eq_some.1 hstep
    exact h.takeAllTimeout (of_decide_eq_true hsteady)
  | next => exact (h.next (ite_none_right_eq_some.1 hstep).2).1

theorem Pending.step {item : TimeoutItem ι} {op : LoopOp ι} (hitem : s.Pending item)
    (h : s.OnTime) (hleaves : leaves item.address op = true) (hstep : s.step op = some s') :
    s'.now = s.now ∧ s'.Pending item := by
  have hunlinked : ∀ {a : ι}, a ≠ item.address → (s.removeFromLink a).Pending item := by
    intro a ha
    refine hitem.imp (fun hmem => ?_) fun hs => hs.mono rfl (List.Subset.refl _) fun _ hmem => ?_
    · exact mem_filter.2 ⟨hmem, decide_eq_true ha.symm⟩
    · exact Timers.mem_removeFromLink hmem ha.symm
  cases op with
  | tick ms =>
    cases hstep
    exact ⟨rfl, hitem⟩
  | addTimeout apItem =>
    obtain ⟨-, rfl⟩ := ite_some_none_eq_some.1 hstep
    exact ⟨rfl, hitem.imp_right fun hs => hs.mono rfl (List.Subset.refl _) fun _ hmem =>
      Timers.mem_addTimeout h.placed hmem apItem s.clock⟩
  | removeFromLink a =>
    cases hstep
    exact ⟨rfl, hunlinked (of_decide_eq_true hleaves)⟩
  | event apItem bTimeout =>
    cases hstep
    exact ⟨rfl, (hunlinked (of_decide_eq_true hleaves)).imp_left (mem_append_left _)⟩
  | wait =>
    obtain ⟨-, rfl⟩ := ite_some_none_eq_some.1 hstep
    exact ⟨rfl, hitem⟩
  | takeAllTimeout => exact absurd hleaves Bool.false_ne_true
  | next =>
    obtain ⟨-, hnow, hpending⟩ := h.next (ite_none_right_eq_some.1 hstep).2
    exact ⟨hnow, hpending item hitem⟩

/-- **The rest of a round.**  When the active list is empty the item is settled. -/
theorem Pending.settled {item : TimeoutItem ι} {ops : List (LoopOp ι)} (hitem : s.Pending item)
    (h : s.OnTime)
    (hrun : run (restrict (fun _ => leaves item.address) EventLoop.step) s ops = some s')
    (hdone : s'.active = []) : s'.now = s.now ∧ s'.Settled item := by
  have hkept : s'.OnTime ∧ s'.now = s.now ∧ s'.Pending item := by
    refine run_restrict_invariant (I := fun u => u.OnTime ∧ u.now = s.now ∧ u.Pending item)
      (fun u op u' hu hok hstep => ?_) ⟨h, rfl, hitem⟩ hrun
    obtain ⟨honTime, hnow, hpending⟩ := hu
    have hsteady : u.steady op = true := by
      cases op with
      | takeAllTimeout => exact absurd hok Bool.false_ne_true
      | _ => rfl
    obtain ⟨hsame, hpending'⟩ := hpending.step honTime hok hstep
    exact ⟨honTime.step hsteady hstep, hsame.trans hnow, hpending'⟩
  obtain ⟨-, hnow, hpending | hsettled⟩ := hkept
  · rw [hdone] at hpending
    exact absurd hpending not_mem_nil
  · exact ⟨hnow, hsettled⟩

theorem OnTime.pending_takeAllTimeout (h : s.OnTime) (hsteady : s.clock - s.now < 2 ^ 31 - 1)
    {item : TimeoutItem ι} {idx : ℕ} (hitem : item ∈ s.timers.pTimeout.pItems idx) :
    s.takeAllTimeout.Pending item := by
  obtain ⟨hnow, hfits⟩ := h.range hsteady
  obtain ⟨hdue, hkept⟩ := Timers.takeAllTimeout_takes h.placed hnow hfits hitem
  have hactive : item ∈ (s.timers.takeAllTimeout s.clock).1 → s.takeAllTimeout.Pending item :=
    fun htaken => Or.inl (mem_append_right _ (mem_map.2 ⟨item, htaken, rfl⟩))
  by_cases hexpired : item.ullExpireTime ≤ s.clock
  · exact hactive (hdue hexpired)
  · refine hkept.elim hactive fun hleft => Or.inr ?_
    unfold Settled
    rw [if_neg (by exact hexpired)]
    exact ⟨idx, hleft⟩

/-- **Timers go off neither early nor late**, whatever the routines add and remove, if the clock
goes on by less than `2 ^ 31 - 1` milliseconds from round to round: what was processed as timed out
was due in its round, and what is due, and no event removes, is processed in the next. -/
theorem fires_on_time {iSize start : ℕ} {w : Timeout ι} (hstart : 0 < start)
    (hw : allocTimeout ι iSize start = some w) {ops : List (LoopOp ι)}
    (hrun : run (restrict steady step) (init w start) ops = some s) :
    (∀ p ∈ s.timedOut, p.1.ullExpireTime ≤ p.2) ∧
    (∀ idx, s.timers.pTimeout.pItems idx ≠ [] → s.timers.pTimeout.pFlags.get idx = true) ∧
    ∀ s₁, restrict steady step s .takeAllTimeout = some s₁ →
      (∀ idx, ∀ item ∈ s₁.timers.pTimeout.pItems idx, s.clock < item.ullExpireTime) ∧
      ∀ idx, ∀ item ∈ s.timers.pTimeout.pItems idx, ∀ rest s',
        run (restrict (fun _ => leaves item.address) step) s₁ rest = some s' → s'.active = [] →
        if item.ullExpireTime ≤ s.clock then (item, s.clock) ∈ s'.timedOut
        else ∃ idx, item ∈ s'.timers.pTimeout.pItems idx := by
  have h : s.OnTime := run_restrict_invariant (I := OnTime)
    (fun _ _ _ hI hok hstep => hI.step hok hstep) (onTime_init hstart hw) hrun
  refine ⟨h.notEarly, fun idx hne => ?_, fun s₁ hround => ?_⟩
  · obtain ⟨item, hitem⟩ := exists_mem_of_ne_nil _ hne
    exact h.placed.flagged idx item hitem
  obtain ⟨hok, hstep⟩ := restrict_eq_some.1 hround
  have hsteady : s.clock - s.now < 2 ^ 31 - 1 := of_decide_eq_true hok
  obtain ⟨-, rfl⟩ := ite_some_none_eq_some.1 hstep
  obtain ⟨hnow, hfits⟩ := h.range hsteady
  refine ⟨fun idx item hitem => ?_, fun idx item hitem rest s' hrest hdone => ?_⟩
  · exact Timers.lt_of_mem_takeAllTimeout h.placed hnow hfits hitem
  · have hpending := h.pending_takeAllTimeout hsteady hitem
    obtain ⟨hsame, hsettled⟩ := hpending.settled (h.takeAllTimeout hsteady) hrest hdone
    rw [Settled, hsame] at hsettled
    exact hsettled

/-- A timer for 5 milliseconds and one that is parked, in a wheel of 1024 slots, and a round 1100
milliseconds later. -/
def dueAndParked : List (LoopOp ℕ) :=
  [.addTimeout ⟨0, 1005⟩, .addTimeout ⟨1, 3000⟩, .tick 1100, .wait, .takeAllTimeout, .next, .next]

theorem fires_on_time_parked : ∃ w, allocTimeout ℕ 1024 1000 = some w ∧
    ∃ s, run (restrict steady step) (init w 1000) dueAndParked = some s ∧
      (s.timedOut = [(⟨0, 1005⟩, 2100)] ∧ s.timers.pTimeout.pItems 899 = [⟨1, 3000⟩]) ∧
      (∀ p ∈ s.timedOut, p.1.ullExpireTime ≤ p.2) ∧ s.timers.pTimeout.pFlags.get 899 = true := by
  refine ⟨_, rfl, exists_run_and (by decide +kernel) fun s hrun hs => ?_⟩
  obtain ⟨hearly, hflags, -⟩ := @fires_on_time ℕ _ s 1024 1000 _ (by decide) rfl _ hrun
  refine ⟨hearly, hflags 899 ?_⟩
  rw [hs.2]
  exact cons_ne_nil _ _

/-- **One millisecond more.**  The clock goes on by `2 ^ 31 - 1` milliseconds, the `int`
overflows, and the round leaves a timer in the wheel that was due.  So does a round of a wheel
that was allocated at time 0, which begins at the first round as if it had not been started. -/
theorem overdue_timer_left : (∃ w, allocTimeout ℕ 0x10000 1 = some w ∧
    ∃ s, run step (init w 1) [.addTimeout ⟨0, 2⟩, .tick (2 ^ 31 - 1), .wait, .takeAllTimeout] =
        some s ∧
      s.now - 1 < 2 ^ 31 ∧ 2 ≤ s.now ∧ s.active = [] ∧ s.timedOut = [] ∧
      s.timers.pTimeout.pItems 1 = [⟨0, 2⟩]) ∧
    ∃ w, allocTimeout ℕ 0x10000 0 = some w ∧
    ∃ s, run step (init w 0) [.addTimeout ⟨0, 5⟩, .tick 3, .wait, .takeAllTimeout, .tick 2, .wait,
        .takeAllTimeout] = some s ∧
      s.now = 5 ∧ s.active = [] ∧ s.timedOut = [] ∧ s.timers.pTimeout.pItems 5 = [⟨0, 5⟩] :=
  ⟨⟨_, rfl, exists_run_of_decide (by decide +kernel)⟩,
    _, rfl, exists_run_of_decide (by decide +kernel)⟩

end EventLoop

end Corpc.Co
