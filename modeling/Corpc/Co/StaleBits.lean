/-
# Bits of slots without timers

Source: `co_routine.cpp`, the flags of `AddTimeout` and `TakeAllTimeout`, `RemoveFromLink` as
`OnPollPreparePfn` calls it, and `GetNextTimeoutInASecond`.
-/

import Corpc.Co.NextTimeout

namespace Corpc.Co

open Corpc.Basis Function

variable {ι : Type*}

namespace Timeout

def Exact (w : Timeout ι) : Prop :=
  ∀ idx, w.pFlags.get idx = true → w.pItems idx ≠ []

variable {w : Timeout ι}

theorem Exact.takeSlot (h : w.Exact) (idx : ℕ) (apResult : List (TimeoutItem ι)) :
    (w.takeSlot idx apResult).1.Exact := by
  intro other hset
  by_cases hother : other = idx
  · subst hother
    unfold Timeout.takeSlot at hset ⊢
    split_ifs at hset ⊢ with hitems
    · rw [Bitmap.get_clear] at hset
      simp at hset
    · exact absurd (not_not.1 hitems) (h other hset)
  · obtain ⟨hitems, hflag⟩ := w.takeSlot_kept apResult hother
    rw [hitems]
    exact h other (hflag ▸ hset)

theorem Exact.takeSlots (h : w.Exact) (apResult : List (TimeoutItem ι)) (n : ℕ) :
    (w.takeSlots apResult n).1.Exact := by
  induction n with
  | zero => exact h
  | succ n ih => exact ih.takeSlot _ _

theorem Exact.start (h : w.Exact) (allNow : ℕ) : (w.start allNow).Exact := by
  unfold Timeout.start
  split_ifs <;> exact h

theorem Exact.nextTimeout (h : w.Exact) {allNow : ℕ} (hnow : w.ullStart ≤ allNow) :
    w.nextTimeout allNow = some (64 * ((w.llStartIdx + 1000) / 64) - w.base) ∨
    ∃ y ≤ w.llStartIdx + 1000, w.pItems (y % w.iItemSize) ≠ [] ∧
      w.nextTimeout allNow = some (8 * ((y - w.base) / 8) + 8) := by
  rcases w.nextTimeout_spec hnow with ⟨y, hy, hle, hwait⟩ | ⟨_, hwait⟩
  · exact Or.inr ⟨y, hle, h _ hy.holds, hwait⟩
  · exact Or.inl hwait

end Timeout

namespace Timers

variable [DecidableEq ι] {t t' : Timers ι}

/-- Only new items are added, and the timers that are removed are not the last ones of their
slots. -/
def keepsSlots (t : Timers ι) : TimerOp ι → Bool
  | .addTimeout apItem _ => (t.pLink apItem.address).isNone
  | .removeFromLink a =>
    match t.pLink a with
    | some (.slot idx) => (t.pTimeout.pItems idx).any (·.address ≠ a)
    | _ => true
  | _ => true

theorem addTimeout_exact (h : t.pTimeout.Exact) {apItem : TimeoutItem ι}
    (hnew : t.pLink apItem.address = none) (allNow : ℕ) :
    (t.addTimeout apItem allNow).2.pTimeout.Exact := by
  have hstart := h.start allNow
  unfold addTimeout
  dsimp only
  split_ifs
  · exact hstart
  · exact hstart
  rw [addTail, if_neg (by simp [hnew])]
  intro idx hset
  show update (t.pTimeout.start allNow).pItems _ _ idx ≠ []
  by_cases hidx : idx = (t.pTimeout.start allNow).slotOf apItem.ullExpireTime
  · subst hidx
    rw [update_self]
    simp
  · rw [update_of_ne hidx]
    refine hstart idx ?_
    simpa [Bitmap.get_set, hidx] using hset

theorem takeAllTimeout_exact (h : t.pTimeout.Exact) (allNow : ℕ) :
    (t.takeAllTimeout allNow).2.pTimeout.Exact := by
  unfold takeAllTimeout
  dsimp only
  split_ifs
  · exact h.start allNow
  · exact h.start allNow
  · exact (h.start allNow).takeSlots [] _

/-- **A removal keeps the bitmap exact only if it leaves a timer in the slot.** -/
theorem removeFromLink_exact_iff (h : t.pTimeout.Exact) {a : ι} {idx : ℕ}
    (hlink : t.pLink a = some (.slot idx)) (hset : t.pTimeout.pFlags.get idx = true) :
    (t.removeFromLink a).pTimeout.Exact ↔ ∃ item ∈ t.pTimeout.pItems idx, item.address ≠ a := by
  have hitems : (t.removeFromLink a).pTimeout.pItems =
      update t.pTimeout.pItems idx ((t.pTimeout.pItems idx).filter (·.address ≠ a)) := by
    rw [removeFromLink, hlink]
  have hflags : (t.removeFromLink a).pTimeout.pFlags = t.pTimeout.pFlags := by
    rw [removeFromLink, hlink]
  have hleft : (t.pTimeout.pItems idx).filter (·.address ≠ a) ≠ [] ↔
      ∃ item ∈ t.pTimeout.pItems idx, item.address ≠ a := by
    simp [List.filter_eq_nil_iff]
  rw [← hleft]
  constructor
  · intro hexact
    have := hexact idx (by rw [hflags, hset])
    rwa [hitems, update_self] at this
  · intro hne other hother
    rw [hflags] at hother
    rw [hitems]
    by_cases hidx : other = idx
    · rw [hidx, update_self]
      exact hne
    · rw [update_of_ne hidx]
      exact h other hother

theorem step_exact {op : TimerOp ι} (h : t.pTimeout.Exact) (hkeeps : t.keepsSlots op = true)
    (hstep : t.step op = some t') : t'.pTimeout.Exact := by
  cases op with
  | addTimeout apItem allNow =>
    cases hstep
    exact addTimeout_exact h (Option.isNone_iff_eq_none.1 hkeeps) allNow
  | takeAllTimeout allNow =>
    cases hstep
    exact takeAllTimeout_exact h allNow
  | removeFromLink a =>
    cases hstep
    cases hlink : t.pLink a with
    | none =>
      rw [removeFromLink, hlink]
      exact h
    | some place =>
      cases place with
      | list =>
        rw [removeFromLink, hlink]
        exact h
      | slot idx =>
        simp only [keepsSlots, hlink, List.any_eq_true, decide_eq_true_eq] at hkeeps
        by_cases hset : t.pTimeout.pFlags.get idx = true
        · exact (removeFromLink_exact_iff h hlink hset).2 hkeeps
        · -- a slot whose bit is clear may be emptied
          intro other hother
          rw [removeFromLink, hlink] at hother ⊢
          have hne : other ≠ idx := by
            rintro rfl
            exact hset hother
          show update t.pTimeout.pItems idx _ other ≠ []
          rw [update_of_ne hne]
          exact h other hother
  | popHead a =>
    obtain ⟨-, rfl⟩ := Option.ite_some_none_eq_some.1 hstep
    exact h

theorem Reached.exact {iSize : ℕ} (h : Reached iSize keepsSlots t) : t.pTimeout.Exact := by
  obtain ⟨now, w, ops, hnow, hw, hrun⟩ := h
  refine run_restrict_invariant (I := fun t => t.pTimeout.Exact)
    (fun _ _ _ hI hok hstep => step_exact hI hok hstep) ?_ hrun
  unfold allocTimeout at hw
  split_ifs at hw
  cases hw
  intro idx hset
  simp [fresh, Bitmap.get] at hset

/-- **When the bitmap has no stale bits.**  It is exact in every state that is reached by adding new
items, by `TakeAllTimeout` and by removals that leave a timer in the slot, and then no wait is
shortened for a slot without timers.  A removal that takes the last timer out of a slot makes its
bit stale. -/
theorem no_stale_bits_iff :
    (∀ iSize (t : Timers ι), Reached iSize keepsSlots t →
      (∀ idx, t.pTimeout.pItems idx = [] → t.pTimeout.pFlags.get idx = false) ∧
      ∀ allNow, t.pTimeout.ullStart ≤ allNow → t.pTimeout.nextTimeout allNow =
          some (64 * ((t.pTimeout.llStartIdx + 1000) / 64) - t.pTimeout.base) ∨
        ∃ y ≤ t.pTimeout.llStartIdx + 1000, t.pTimeout.pItems (y % t.pTimeout.iItemSize) ≠ [] ∧
          t.pTimeout.nextTimeout allNow = some (8 * ((y - t.pTimeout.base) / 8) + 8)) ∧
    ∀ (t : Timers ι) a idx, t.pTimeout.Exact → t.pLink a = some (.slot idx) →
      t.pTimeout.pFlags.get idx = true →
      ((t.removeFromLink a).pTimeout.Exact ↔ ∃ item ∈ t.pTimeout.pItems idx, item.address ≠ a) := by
  refine ⟨fun iSize t ht => ⟨fun idx hempty => ?_, fun allNow => ht.exact.nextTimeout⟩,
    fun t a idx h hlink hset => removeFromLink_exact_iff h hlink hset⟩
  by_contra hset
  exact ht.exact idx (Bool.eq_true_of_not_eq_false hset) hempty

/-- Of two timers of a slot one is removed, and then the other. -/
theorem no_stale_bits_twoTimers : ∃ w, allocTimeout ℕ 0x10000 8 = some w ∧
    ∃ t, run (restrict keepsSlots step) (fresh w)
        [.addTimeout ⟨0, 12⟩ 8, .addTimeout ⟨1, 12⟩ 8, .removeFromLink 0] = some t ∧
      (t.pTimeout.pItems 4 = [⟨1, 12⟩] ∧ t.pLink 1 = some (.slot 4) ∧
        t.pTimeout.pFlags.get 4 = true) ∧
      (∀ idx, t.pTimeout.pItems idx = [] → t.pTimeout.pFlags.get idx = false) ∧
      ¬(t.removeFromLink 1).pTimeout.Exact := by
  refine ⟨_, rfl, exists_run_and (by decide +kernel) fun t ht hp => ?_⟩
  have hreached : Reached 0x10000 keepsSlots t := ⟨8, _, _, by decide, rfl, ht⟩
  obtain ⟨hbits, hremove⟩ := no_stale_bits_iff (ι := ℕ)
  refine ⟨(hbits _ t hreached).1, fun hexact => ?_⟩
  obtain ⟨item, hmem, hne⟩ := (hremove t 1 4 hreached.exact hp.2.1 hp.2.2).1 hexact
  rw [hp.1, List.mem_singleton] at hmem
  exact hne (by rw [hmem])

/-- A timer that is removed before its time. -/
def removedTimer : List (TimerOp ℕ) :=
  [.addTimeout ⟨0, 12⟩ 8, .removeFromLink 0]

theorem removed_timer_leaves_bit :
    ((allocTimeout ℕ 0x10000 8).bind fun w =>
      (run (restrict steady step) (fresh w) removedTimer).map fun t =>
        (t.pTimeout.pItems 4, t.pTimeout.pFlags.get 4, t.waittime 8)) = some ([], true, some 8) ∧
    ((allocTimeout ℕ 0x10000 8).map fun w => (fresh w).waittime 8) = some (some 960) ∧
    ((allocTimeout ℕ 0x10000 8).bind fun w =>
      (run (restrict steady step) (fresh w) (removedTimer ++ [.takeAllTimeout 20])).map fun t =>
        (t.pTimeout.llStartIdx, t.pTimeout.pItems 4, t.pTimeout.pFlags.get 4)) =
      some (12, [], true) := by
  decide +kernel

end Timers

end Corpc.Co
