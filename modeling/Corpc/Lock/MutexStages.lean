/-
# What a step of the mutex does to whom

A step of the mutex moves its own coroutine, and a `post` also the coroutine that it takes from
the queue (`Mutex.pcs_of_step`).  A coroutine goes through four stages: outside, locking, inside,
unlocking.
-/

import Corpc.Lock.Mutex

namespace Corpc.Lock

open Function Option

def Action.coroutine {ι : Type} : Action ι → ι
  | .lock c _ | .load c | .loop c _ _ | .wait c | .resume c | .activate c | .wake c _ | .takeOver c
  | .unlock c | .unlockLoop c _ | .post c => c

namespace Mutex

section Others

variable {ι : Type} [DecidableEq ι] {s s' : Mutex ι} {c d : ι}

theorem pcs_lock (hd : d ≠ c) (spurious : Bool) : (s.lock c spurious).pcs d = s.pcs d := by
  unfold Mutex.lock
  split <;> exact update_of_ne hd ..

theorem pcs_loop (hd : d ≠ c) (l : Locals) (oldV : ℤ) (spurious late : Bool) :
    (s.loop c l oldV spurious late).pcs d = s.pcs d := by
  unfold Mutex.loop
  dsimp only
  split_ifs <;> first | rfl | exact update_of_ne hd ..

theorem pcs_wait (hd : d ≠ c) (l : Locals) : (s.wait c l).pcs d = s.pcs d := by
  unfold Mutex.wait
  split <;> exact update_of_ne hd ..

theorem pcs_wake (hd : d ≠ c) (l : Locals) (late : Bool) :
    (s.wake c l late).pcs d = s.pcs d := by
  unfold Mutex.wake
  dsimp only
  split_ifs <;> first | rfl | exact update_of_ne hd ..

theorem pcs_unlock (hd : d ≠ c) : (s.unlock c).pcs d = s.pcs d := by
  unfold Mutex.unlock
  dsimp only
  split_ifs <;> first | rfl | exact update_of_ne hd ..

theorem pcs_unlockLoop (hd : d ≠ c) (oldV : ℤ) (spurious : Bool) :
    (s.unlockLoop c oldV spurious).pcs d = s.pcs d := by
  unfold Mutex.unlockLoop
  split_ifs <;> exact update_of_ne hd ..

theorem pcs_post (hd : d ≠ c) :
    (s.post c).pcs d = s.pcs d ∨ ∃ l, s.pcs d = .queued l ∧ (s.post c).pcs d = .popped l := by
  have hkept : ∀ t : Mutex ι, t.pcs = s.pcs → (t.goto c .outside).pcs d = s.pcs d := by
    intro t ht
    show update t.pcs c .outside d = _
    rw [update_of_ne hd, ht]
  unfold Mutex.post
  split
  · exact .inl (hkept _ rfl)
  · rename_i e rest hq
    dsimp only
    split
    · rename_i l he
      by_cases hde : d = e
      · subst hde
        exact .inr ⟨l, (hkept _ rfl).symm.trans he, update_self ..⟩
      · exact .inl ((update_of_ne hde ..).trans (hkept _ rfl))
    · exact .inl (hkept _ rfl)

theorem pcs_of_step {a : Action ι} (hs : s.step a = some s') (hd : d ≠ a.coroutine) :
    s'.pcs d = s.pcs d ∨ ∃ l, s.pcs d = .queued l ∧ s'.pcs d = .popped l := by
  unfold Mutex.step at hs
  split at hs
  · cases hs
  · cases a with
    | lock c spurious =>
      obtain ⟨-, hs⟩ := ite_none_right_eq_some.1 hs
      exact .inl (some.inj hs ▸ pcs_lock hd spurious)
    | load c =>
      dsimp only at hs
      split at hs
      · exact .inl (some.inj hs ▸ update_of_ne hd ..)
      · exact .inl (some.inj hs ▸ update_of_ne hd ..)
      · cases hs
    | loop c spurious late =>
      dsimp only at hs
      split at hs
      · exact .inl (some.inj hs ▸ pcs_loop hd ..)
      · cases hs
    | wait c =>
      dsimp only at hs
      split at hs
      · exact .inl (some.inj hs ▸ pcs_wait hd ..)
      · cases hs
    | resume c | activate c | takeOver c =>
      dsimp only at hs
      split at hs
      · exact .inl (some.inj hs ▸ update_of_ne hd ..)
      · cases hs
    | wake c late =>
      dsimp only at hs
      split at hs
      · exact .inl (some.inj hs ▸ pcs_wake hd ..)
      · cases hs
    | unlock c =>
      obtain ⟨-, hs⟩ := ite_none_right_eq_some.1 hs
      exact .inl (some.inj hs ▸ pcs_unlock hd)
    | unlockLoop c spurious =>
      dsimp only at hs
      split at hs
      · exact .inl (some.inj hs ▸ pcs_unlockLoop hd ..)
      · cases hs
    | post c =>
      obtain ⟨-, rfl⟩ := ite_some_none_eq_some.1 hs
      exact pcs_post hd

theorem eq_unlock_of_step {a : Action ι} (hs : s.step a = some s')
    (hc : s.pcs a.coroutine = .inside) : a = .unlock a.coroutine := by
  cases a with
  | unlock c => rfl
  | _ => simp_all [Mutex.step, Action.coroutine]

theorem inside_of_step {a : Action ι} (hs : s.step a = some s') (hc : s.pcs c = .inside)
    (ha : a ≠ .unlock c) : s'.pcs c = .inside := by
  by_cases hac : c = a.coroutine
  · subst hac
    exact absurd (eq_unlock_of_step hs hc) ha
  · rcases pcs_of_step hs hac with hsame | ⟨l, hq, -⟩
    · rw [hsame, hc]
    · rw [hc] at hq
      cases hq

end Others

end Mutex

inductive Stage
  | outside
  | locking
  | inside
  | unlocking
  deriving DecidableEq

def Pc.stage : Pc → Stage
  | .outside => .outside
  | .loading _ | .looping _ _ | .waiting _ | .queued _ | .popped _ | .awake _ | .handed _ _ =>
    .locking
  | .inside => .inside
  | .unlocking _ | .unlockLoading | .posting => .unlocking

inductive Action.Stages {ι : Type} (a : Action ι) : Stage → Stage → Prop
  | lock {stage' : Stage} (spurious : Bool) (ha : a = .lock a.coroutine spurious)
      (h' : stage' = .locking ∨ stage' = .inside) : a.Stages .outside stage'
  | locking {stage' : Stage} (h' : stage' = .locking ∨ stage' = .inside) : a.Stages .locking stage'
  | unlock {stage' : Stage} (ha : a = .unlock a.coroutine) (h' : stage' ≠ .locking) :
      a.Stages .inside stage'
  | unlocking {stage' : Stage} (h' : stage' = .unlocking ∨ stage' = .outside) :
      a.Stages .unlocking stage'

namespace Mutex

section Stages

variable {ι : Type} [DecidableEq ι] {s s' : Mutex ι} {c : ι}

omit [DecidableEq ι] in
theorem inside_of_stage (h : (s.pcs c).stage = .inside) : s.pcs c = .inside := by
  cases hc : s.pcs c <;> rw [hc] at h <;> first | rfl | cases h

omit [DecidableEq ι] in
theorem outside_of_stage (h : (s.pcs c).stage = .outside) : s.pcs c = .outside := by
  cases hc : s.pcs c <;> rw [hc] at h <;> first | rfl | cases h

theorem pcs_goto (s : Mutex ι) (c : ι) (pc : Pc) : (s.goto c pc).pcs c = pc :=
  update_self ..

theorem stage_of_ne {a : Action ι} (hs : s.step a = some s') (hc : c ≠ a.coroutine) :
    (s'.pcs c).stage = (s.pcs c).stage := by
  rcases pcs_of_step hs hc with hsame | ⟨l, hq, hp⟩
  · rw [hsame]
  · rw [hq, hp]
    rfl

theorem stage_loop {l : Locals} {oldV : ℤ} (hc : s.pcs c = .looping l oldV)
    (spurious late : Bool) : ((s.loop c l oldV spurious late).pcs c).stage = .locking ∨
      ((s.loop c l oldV spurious late).pcs c).stage = .inside := by
  have hsame : (s.pcs c).stage = .locking := by rw [hc]; rfl
  unfold Mutex.loop
  dsimp only
  split_ifs <;> first | exact .inl hsame | (rw [pcs_goto]; exact .inl rfl) |
    (rw [pcs_goto]; exact .inr rfl)

theorem stage_wake {l : Locals} (hc : s.pcs c = .awake l) (late : Bool) :
    ((s.wake c l late).pcs c).stage = .locking := by
  have hsame : (s.pcs c).stage = .locking := by rw [hc]; rfl
  unfold Mutex.wake
  dsimp only
  split_ifs <;> first | exact hsame | (rw [pcs_goto]; rfl)

theorem stage_unlock (hc : s.pcs c = .inside) : ((s.unlock c).pcs c).stage ≠ .locking := by
  have hsame : (s.pcs c).stage ≠ .locking := by rw [hc]; nofun
  unfold Mutex.unlock
  dsimp only
  split_ifs <;> first | exact hsame | (rw [pcs_goto]; nofun)

theorem stage_post : ((s.post c).pcs c).stage = .outside := by
  unfold Mutex.post
  split
  · rw [pcs_goto]
    rfl
  · rename_i d rest hq
    dsimp only
    split
    · rename_i l hd
      have hdc : c ≠ d := by
        rintro rfl
        rw [pcs_goto] at hd
        cases hd
      have hother : ∀ (t : Mutex ι) (pc : Pc), (t.goto d pc).pcs c = t.pcs c :=
        fun t pc => update_of_ne hdc ..
      rw [hother, pcs_goto]
      rfl
    · rw [pcs_goto]
      rfl

theorem stages_of_step {a : Action ι} (hs : s.step a = some s') :
    a.Stages (s.pcs a.coroutine).stage (s'.pcs a.coroutine).stage := by
  unfold Mutex.step at hs
  split at hs
  · cases hs
  · cases a with
    | lock c spurious =>
      obtain ⟨hc, rfl⟩ := ite_some_none_eq_some.1 hs
      simp only [Action.coroutine, hc]
      refine .lock spurious rfl ?_
      unfold Mutex.lock
      split
      · exact .inr (by rw [pcs_goto]; rfl)
      · exact .inl (by rw [pcs_goto]; rfl)
    | load c =>
      dsimp only at hs
      split at hs
      · rename_i l hc
        cases hs
        simp only [Action.coroutine, hc, pcs_goto]
        exact .locking (.inl rfl)
      · rename_i hc
        cases hs
        simp only [Action.coroutine, hc, pcs_goto]
        exact .unlocking (.inl rfl)
      · cases hs
    | loop c spurious late =>
      dsimp only at hs
      split at hs
      · rename_i l oldV hc
        cases hs
        simp only [Action.coroutine]
        have hstage := stage_loop hc spurious late
        rw [hc] at *
        exact .locking hstage
      · cases hs
    | wait c =>
      dsimp only at hs
      split at hs
      · rename_i l hc
        cases hs
        simp only [Action.coroutine, hc]
        refine .locking (.inl ?_)
        unfold Mutex.wait
        split <;> (rw [pcs_goto]; rfl)
      · cases hs
    | resume c | activate c =>
      dsimp only at hs
      split at hs
      · rename_i l hc
        cases hs
        simp only [Action.coroutine, hc, pcs_goto]
        exact .locking (.inl rfl)
      · cases hs
    | wake c late =>
      dsimp only at hs
      split at hs
      · rename_i l hc
        cases hs
        simp only [Action.coroutine, hc]
        exact .locking (.inl (stage_wake hc late))
      · cases hs
    | takeOver c =>
      dsimp only at hs
      split at hs
      · rename_i l oldV hc
        cases hs
        simp only [Action.coroutine, hc]
        refine .locking (.inr ?_)
        unfold Mutex.takeOver
        rw [pcs_goto]
        rfl
      · cases hs
    | unlock c =>
      obtain ⟨hc, rfl⟩ := ite_some_none_eq_some.1 hs
      simp only [Action.coroutine, hc]
      exact .unlock rfl (stage_unlock hc)
    | unlockLoop c spurious =>
      dsimp only at hs
      split at hs
      · rename_i oldV hc
        cases hs
        simp only [Action.coroutine, hc]
        refine .unlocking ?_
        unfold Mutex.unlockLoop
        split_ifs
        · exact .inl (by rw [pcs_goto]; rfl)
        · exact .inl (by rw [pcs_goto]; rfl)
        · exact .inr (by rw [pcs_goto]; rfl)
      · cases hs
    | post c =>
      obtain ⟨hc, rfl⟩ := ite_some_none_eq_some.1 hs
      simp only [Action.coroutine, hc]
      exact .unlocking (.inr stage_post)

end Stages

end Mutex

end Corpc.Lock
