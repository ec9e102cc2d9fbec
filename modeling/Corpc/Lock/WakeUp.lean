/-
# A free mutex with waiters is attended to

All bits of `state_` become clear only when an `unlock` takes the locked bit away.  It looks for a
waiter to wake then, and gives up only where it has read a `state_` with a bit set or without
waiters.
-/

import Corpc.Lock.MutexInvariant

namespace Corpc.Lock

open Corpc.Basis Function

/-- An `unlock` that is about to wake a waiter, if it finds `state_` as it was or reads it
again. -/
def Pc.attends : Pc → Prop
  | .unlockLoading => True
  | .unlocking oldV => Mutex.mayWake oldV = true
  | _ => False

namespace Mutex

variable {ι : Type} [DecidableEq ι] {s s' : Mutex ι} {c : ι}

/-- Some `unlock` attends to a free mutex with waiters. -/
def Attended (s : Mutex ι) : Prop := mayWake s.state = true → ∃ c, (s.pcs c).attends

theorem mayWake_eq_false {v : ℤ} (h : locked v = 1 ∨ woken v = 1 ∨ starving v = 1) :
    mayWake v = false := by
  by_contra hne
  obtain ⟨-, hl, hw, hs⟩ := mayWake_iff.1 (Bool.eq_true_of_not_eq_false hne)
  omega

namespace Attended

omit [DecidableEq ι] in
theorem of_bit (h : locked s.state = 1 ∨ woken s.state = 1 ∨ starving s.state = 1) :
    s.Attended := by
  intro hmay
  rw [mayWake_eq_false h] at hmay
  cases hmay

theorem goto (h : s.Attended) {t : Mutex ι} {pc : Pc} (hstate : t.state = s.state)
    (hpcs : t.pcs = s.pcs) (hpc : (s.pcs c).attends → pc.attends) : (t.goto c pc).Attended := by
  intro hmay
  obtain ⟨d, hd⟩ := h (hstate ▸ hmay)
  show ∃ d, (update t.pcs c pc d).attends
  by_cases hdc : d = c
  · refine ⟨c, ?_⟩
    rw [update_self]
    exact hpc (hdc ▸ hd)
  · refine ⟨d, ?_⟩
    rw [update_of_ne hdc, hpcs]
    exact hd

theorem goto_idle (h : s.Attended) {t : Mutex ι} {pc pc' : Pc} (hc : s.pcs c = pc)
    (hstate : t.state = s.state) (hpcs : t.pcs = s.pcs) (hpc : ¬pc.attends) :
    (t.goto c pc').Attended :=
  h.goto hstate hpcs fun ha => absurd (hc ▸ ha) hpc

theorem lock (h : s.Attended) (hc : s.pcs c = .outside) (spurious : Bool) :
    (s.lock c spurious).Attended := by
  unfold Mutex.lock
  split
  · exact of_bit (.inl (by show locked 1 = 1; decide))
  · exact h.goto_idle hc rfl rfl id

theorem loop (h : s.Attended) {l : Locals} {oldV : ℤ} (hc : s.pcs c = .looping l oldV)
    (spurious late : Bool) : (s.loop c l oldV spurious late).Attended := by
  unfold Mutex.loop
  split
  · split
    · exact of_bit (.inr (.inl (woken_setWoken oldV)))
    · exact h.goto_idle hc rfl rfl id
  · split
    · exact h
    · dsimp only
      split
      · exact h
      · split
        · split
          · -- the mutex is locked
            rename_i hfree
            refine of_bit (.inl ?_)
            show locked (if l.awoke then clearWoken (newState l oldV) else newState l oldV) = 1
            rw [newState_of_free l hfree.1 hfree.2]
            split <;> simp
          · -- what keeps the coroutine from it stays
            rename_i hne
            have hlcases := locked_cases oldV
            have hscases := starving_cases oldV
            obtain ⟨hl, -, hst⟩ := bits_newState (v := oldV) l (by omega)
            refine of_bit ?_
            show locked (if l.awoke then clearWoken (newState l oldV) else newState l oldV) = 1 ∨
              woken (if l.awoke then clearWoken (newState l oldV) else newState l oldV) = 1 ∨
              starving (if l.awoke then clearWoken (newState l oldV) else newState l oldV) = 1
            have hbits : locked (if l.awoke then clearWoken (newState l oldV)
                else newState l oldV) = locked oldV ∧
                starving (if l.awoke then clearWoken (newState l oldV) else newState l oldV) =
                  starving (newState l oldV) := by
              split <;> simp [hl]
            rw [hbits.1, hbits.2, hst]
            split_ifs <;> omega
        · exact h.goto_idle hc rfl rfl id

theorem wait (h : s.Attended) {l : Locals} (hc : s.pcs c = .waiting l) :
    (s.wait c l).Attended := by
  unfold Mutex.wait
  split <;> exact h.goto_idle hc rfl rfl id

theorem wake (h : s.Attended) {l : Locals} (hc : s.pcs c = .awake l) (late : Bool) :
    (s.wake c l late).Attended := by
  unfold Mutex.wake
  dsimp only
  split
  · split
    · exact h
    · exact h.goto_idle hc rfl rfl id
  · exact h.goto_idle hc rfl rfl id

theorem unlock (hrunning : (s.unlock c).aborted = false) : (s.unlock c).Attended := by
  unfold Mutex.unlock at *
  dsimp only at *
  split
  · rename_i hzero
    intro hmay
    have hmay : mayWake (s.state - 1) = true := hmay
    rw [hzero] at hmay
    exact absurd hmay (by decide)
  · split
    · rename_i hne habort
      rw [if_neg hne, if_pos habort] at hrunning
      cases hrunning
    · split
      · intro hmay
        refine ⟨c, ?_⟩
        show (update s.pcs c (.unlocking (s.state - 1)) c).attends
        rw [update_self]
        exact hmay
      · rename_i hs
        exact of_bit (.inr (.inr ((starving_cases _).resolve_left hs)))

theorem unlockLoop (h : s.Attended) {oldV : ℤ} (hc : s.pcs c = .unlocking oldV)
    (spurious : Bool) : (s.unlockLoop c oldV spurious).Attended := by
  unfold Mutex.unlockLoop
  split
  · split
    · exact of_bit (.inr (.inl (woken_setWoken _)))
    · exact h.goto rfl rfl fun _ => trivial
  · -- it has read that there is nobody to wake
    rename_i hmay
    exact h.goto_idle hc rfl rfl hmay

theorem post (h : s.Attended) (hc : s.pcs c = .posting) : (s.post c).Attended := by
  unfold Mutex.post
  split
  · exact h.goto_idle hc rfl rfl id
  · have hc' : ({ s with waitRoutines := _ }.goto c .outside).Attended :=
      h.goto_idle (t := { s with waitRoutines := _ }) hc rfl rfl id
    dsimp only
    split
    · rename_i l hd
      exact hc'.goto_idle hd rfl rfl id
    · exact hc'

theorem step [Fintype ι] (h : s.Attended) (hinv : s'.Inv) {a : Action ι}
    (ha : s.wokenByPost a = true) (hs : s.step a = some s') : s'.Attended := by
  cases move_of_step ha hs with
  | lock hc spurious => exact h.lock hc spurious
  | load hc | resume hc => exact h.goto_idle hc rfl rfl id
  | @reload c hc =>
    -- it reads the state as it is
    intro hmay
    refine ⟨c, ?_⟩
    show (update s.pcs c (.unlocking s.state) c).attends
    rw [update_self]
    exact hmay
  | loop hc spurious late => exact h.loop hc spurious late
  | wait hc => exact h.wait hc
  | wake hc late => exact h.wake hc late
  | @takeOver c l oldV hc =>
    -- the coroutine is inside now
    refine of_bit (.inl ?_)
    have hle := le_tally Pc.holds (s.takeOver c l oldV).pcs c
    have hpc : (s.takeOver c l oldV).pcs c = .inside := update_self ..
    rw [hpc, Pc.holds] at hle
    have hlcases := locked_cases (s.takeOver c l oldV).state
    have hholds := hinv.balance.holds
    omega
  | unlock hc => exact unlock hinv.running
  | unlockLoop hc spurious => exact h.unlockLoop hc spurious
  | post hc => exact h.post hc

end Attended
end Mutex

def Pc.pops : Pc → ℕ
  | .popped _ => 1
  | _ => 0

theorem Pc.pops_le_tokens (pc : Pc) : pc.pops ≤ pc.tokens := by
  cases pc <;> simp [Pc.pops, Pc.tokens]

/-- **No wake-up is lost**, with any number of coroutines that are woken by a `post` only. -/
theorem mutex_no_lost_wakeup {ι : Type} [Fintype ι] [DecidableEq ι] (as : List (Action ι))
    (s : Mutex ι) (h : run (restrict Mutex.wokenByPost Mutex.step) Mutex.init as = some s) :
    (∀ c, s.pcs c = .posting → s.waitRoutines = [] → s.dontWait = false) ∧
      s.dontWait.toNat + tally Pc.pops s.pcs ≤ 1 ∧
      (locked s.state = 0 → woken s.state = 0 → starving s.state = 0 → 0 < waiters s.state →
        ∃ c, s.pcs c = .unlockLoading ∨
          ∃ oldV, s.pcs c = .unlocking oldV ∧ Mutex.mayWake oldV = true) := by
  have hinv : s.Inv ∧ s.Attended := by
    refine run_restrict_invariant (I := fun t : Mutex ι => t.Inv ∧ t.Attended) ?_
      ⟨Mutex.inv_init, ?_⟩ h
    · intro t a t' ht ha hs
      exact ⟨ht.1.step ha hs, ht.2.step (ht.1.step ha hs) ha hs⟩
    · intro hmay
      exact absurd hmay (by show ¬Mutex.mayWake 0 = true; decide)
  refine ⟨fun c hc _ => hinv.1.dontWait_of_posting hc, ?_, fun hl hw hs hpos => ?_⟩
  · have hle : tally Pc.pops s.pcs ≤ tally Pc.tokens s.pcs :=
      tally_mono Pc.pops_le_tokens s.pcs
    have htoken := hinv.1.balance.token_le
    omega
  · obtain ⟨c, hc⟩ := hinv.2 (mayWake_iff.2 ⟨by omega, hl, hw, hs⟩)
    refine ⟨c, ?_⟩
    cases hpc : s.pcs c with
    | unlockLoading => exact .inl rfl
    | unlocking oldV =>
      rw [hpc] at hc
      exact .inr ⟨oldV, rfl, hc⟩
    | _ =>
      rw [hpc] at hc
      exact hc.elim

/-- A coroutine is counted as a waiter when the mutex is unlocked, and not in the queue when it is
woken: the wake-up is in `dontWait_`. -/
def wokenBeforeQueued : List (Action (Fin 2)) :=
  let c : Fin 2 := ⟨0, Nat.two_pos⟩
  let d : Fin 2 := ⟨1, Nat.one_lt_two⟩
  [.lock c false, .lock d true, .load d, .loop d false false, .load d, .loop d false false,
    .load d, .loop d false false, .load d, .loop d false false, .load d, .loop d false false,
    .unlock c, .unlockLoop c false, .post c]

theorem mutex_no_lost_wakeup_wokenBeforeQueued : ∃ s,
    run (restrict Mutex.wokenByPost Mutex.step) Mutex.init wokenBeforeQueued = some s ∧
      s.dontWait = true ∧
      (∀ c, s.pcs c = .posting → s.waitRoutines = [] → s.dontWait = false) ∧
      s.dontWait.toNat + tally Pc.pops s.pcs ≤ 1 ∧
      (locked s.state = 0 → woken s.state = 0 → starving s.state = 0 → 0 < waiters s.state →
        ∃ c, s.pcs c = .unlockLoading ∨
          ∃ oldV, s.pcs c = .unlocking oldV ∧ Mutex.mayWake oldV = true) := by
  exact exists_run_and (by decide +kernel) fun s hs _ =>
    mutex_no_lost_wakeup wokenBeforeQueued s hs

/-- Three coroutines wait, `e` and `f` before `d`.  The mutex is unlocked, which wakes `e`; then
`d` is activated, gets the mutex, and its `unlock` wakes `f`. -/
def expiredThird {ι : Type} (c d e f : ι) : List (Action ι) :=
  List.flatten [[.lock c false], fallAsleep e, fallAsleep f, fallAsleep d,
    [.unlock c, .unlockLoop c false, .post c, .activate d, .wake d false, .loop d false false,
      .unlock d, .unlockLoop d false, .post d]]

/-- **Two wake-ups are under way at once.** -/
theorem activated_waiter_wakes_twice : ∃ s,
    run Mutex.step Mutex.init (expiredThird (0 : Fin 4) 1 2 3) = some s ∧
      tally Pc.pops s.pcs = 2 := by
  exact exists_run_of_decide (by decide +kernel)

end Corpc.Lock
