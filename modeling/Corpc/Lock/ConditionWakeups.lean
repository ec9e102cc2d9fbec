/-
# No wake-up is lost

What the invariant of the condition variable comes to.  A waiter that has unlocked the mutex stays
in the queue until a `signal` or `broadcast` takes it, and what was taken is resumed once
(`State.Inv.found`, `State.Inv.released`).
-/

import Corpc.Lock.ConditionInvariant

namespace Corpc.Lock

open Corpc.Basis Function List Option Nat

section Unlocking

variable {ι : Type} [DecidableEq ι] [Fintype ι] {m : Mutex ι} {c : ι}

/-- How many steps of `unlock` are left, at most, if no other coroutine takes one. -/
def Pc.unlockRank (state : ℤ) : Pc → ℕ
  | .inside => 5
  | .unlocking oldV => if oldV = state then 2 else 4
  | .unlockLoading => 3
  | .posting => 1
  | _ => 0

def Mutex.unlockRank (m : Mutex ι) (c : ι) : ℕ := (m.pcs c).unlockRank m.state

omit [Fintype ι] in
theorem Mutex.unlockRank_goto (m : Mutex ι) (c : ι) (pc : Pc) :
    (m.goto c pc).unlockRank c = pc.unlockRank m.state := by
  unfold Mutex.unlockRank
  rw [pcs_goto]
  rfl

theorem Mutex.Inv.exists_unlock_step (h : m.Inv)
    (hstage : (m.pcs c).stage = .inside ∨ (m.pcs c).stage = .unlocking) :
    ∃ a ∈ [Action.unlock c, .load c, .unlockLoop c false, .post c], ∃ m',
      m.step a = some m' ∧ m'.unlockRank c < m.unlockRank c := by
  have hstep : ∀ {a : Action ι} {m' : Mutex ι}, (if m.aborted = true then none else some m') =
      m.step a → m.step a = some m' := by
    intro a m' ha
    rw [← ha, h.running]
    rfl
  cases hc : m.pcs c with
  | inside =>
    refine ⟨.unlock c, by simp, m.unlock c, hstep ?_, ?_⟩
    · simp only [Mutex.step, hc, if_true]
    · -- the mutex is not aborted, since the coroutine has it
      have hrunning := (h.unlock hc).running
      show _ < (m.pcs c).unlockRank m.state
      rw [hc]
      revert hrunning
      unfold Mutex.unlock
      dsimp only
      split_ifs
      · intro _
        rw [unlockRank_goto]
        exact zero_lt_succ _
      · rintro ⟨⟩
      · intro _
        rw [unlockRank_goto]
        exact (if_pos rfl).trans_lt (Nat.lt_add_of_pos_right (Nat.zero_lt_succ 2))
      · intro _
        rw [unlockRank_goto]
        exact one_lt_succ_succ _
  | unlocking oldV =>
    refine ⟨.unlockLoop c false, by simp, m.unlockLoop c oldV false, hstep ?_, ?_⟩
    · simp only [Mutex.step, hc]
    · show _ < (m.pcs c).unlockRank m.state
      rw [hc]
      unfold Mutex.unlockLoop
      split_ifs with hmay hcas <;> rw [unlockRank_goto] <;> simp only [Pc.unlockRank]
      · split_ifs <;> omega
      · rw [if_neg fun hold => hcas ⟨hold.symm, rfl⟩]
        omega
      · split_ifs <;> omega
  | unlockLoading =>
    refine ⟨.load c, by simp, m.goto c (.unlocking m.state), hstep ?_, ?_⟩
    · simp only [Mutex.step, hc]
    · show _ < (m.pcs c).unlockRank m.state
      rw [hc, unlockRank_goto]
      exact (if_pos rfl).trans_lt (lt_succ_self 2)
  | posting =>
    refine ⟨.post c, by simp, m.post c, hstep ?_, ?_⟩
    · simp only [Mutex.step, hc, if_true]
    · show ((m.post c).pcs c).unlockRank _ < (m.pcs c).unlockRank m.state
      rw [hc, outside_of_stage stage_post]
      exact one_pos
  | _ =>
    rw [hc] at hstage
    rcases hstage with hstage | hstage <;> cases hstage

end Unlocking

namespace Cond

variable {ι τ : Type} [DecidableEq ι] [DecidableEq τ] [Fintype ι] {thread : ι → τ}
  {s t : State ι τ} {c : ι}

omit [DecidableEq τ] in
theorem State.Inv.found (h : s.Inv thread) (hc : (s.pcs c).registered = 1) :
    c ∈ s.waitRoutines ∨ s.Taken c := by
  have hplaced := h.placed c
  by_cases hlist : c ∈ s.waitRoutines
  · exact .inl hlist
  by_cases hresumes : c ∈ s.resumes
  · exact .inr (.inl hresumes)
  by_cases hhands : ∃ d, c ∈ (s.pcs d).hands
  · exact .inr (.inr hhands)
  have hnone : tally (fun pc : Pc ι => pc.hands.count c) s.pcs = 0 :=
    tally_eq_zero_iff.2 fun d => count_eq_zero.2 fun hd => hhands ⟨d, hd⟩
  rw [count_eq_zero.2 hlist, count_eq_zero.2 hresumes, hnone, hc] at hplaced
  cases hplaced

omit [DecidableEq τ] [Fintype ι] in
theorem State.Move.registered (hm : s.Move c t) (hc : (s.pcs c).registered = 1) :
    (t.pcs c).registered = 1 := by
  have hself : ∀ (u : State ι τ) (pc : Pc ι), (u.goto c pc).pcs c = pc :=
    fun u pc => update_self ..
  cases hm with
  | quiet hsame | lock hsame | unlock hsame => rw [hself, hsame.registered, hc]
  | suspend => rw [hself]; rfl
  | wait h | wake h | enqueue h | take h | notify h | waited h | woke h =>
    rw [h] at hc
    cases hc

variable {a : Action ι}

/-- **A coroutine that has unlocked the mutex in `wait` stays there until it is resumed.** -/
theorem State.Inv.released (h : s.Inv thread) (hc : s.Released c)
    (hs : s.step thread a = some t) (ha : a ≠ .resume c) : t.Released c := by
  obtain ⟨hregistered, hmutex⟩ := hc
  -- the mutex is not locked by a coroutine that waits
  have hkept : ∀ {b : Lock.Action ι} {m : Mutex ι}, s.mayUse b = true → s.mutex.step b = some m →
      m.pcs c ≠ .inside := by
    intro b m hmay hm hin
    have hstage : (m.pcs c).stage = .inside := by rw [hin]; rfl
    by_cases hb : c = b.coroutine
    · have hfits := h.fits c
      have hstages := Mutex.stages_of_step hm
      rw [← hb, hstage] at hstages
      generalize hold : (s.mutex.pcs c).stage = stage at hstages hfits
      cases hstages with
      | lock spurious hlock h' =>
        rw [hlock, ← hb] at hmay
        rcases of_decide_eq_true hmay with hpc | hpc <;> rw [hpc] at hregistered <;>
          cases hregistered
      | locking h' => exact Pc.not_fits_locking hregistered hfits
      | unlock hunlock h' => exact hmutex (Mutex.inside_of_stage hold)
      | unlocking h' => simp at h'
    · rw [Mutex.stage_of_ne hm hb] at hstage
      exact hmutex (Mutex.inside_of_stage hstage)
  cases step_of_step hs with
  | @move _ d _ hrun hm =>
    obtain ⟨hsame, -, hother⟩ := hm.frame
    refine ⟨?_, by rw [hsame]; exact hmutex⟩
    by_cases hd : c = d
    · subst hd
      exact hm.registered hregistered
    · rw [hother c hd]
      exact hregistered
  | mutex hrun hmay hm => exact ⟨hregistered, hkept hmay hm⟩
  | mutexResume hfree hm => exact ⟨hregistered, hkept rfl hm⟩
  | run | yield => exact ⟨hregistered, hmutex⟩
  | @resume d hfree hmem _ ht =>
    rw [h.step_resume hfree hmem] at ht
    cases ht
    refine ⟨?_, hmutex⟩
    have hd : c ≠ d := fun hd => ha (by rw [hd])
    show (update s.pcs d .waitLock c).registered = 1
    rw [update_of_ne hd]
    exact hregistered

variable {acts : List (Action ι)}

theorem State.Inv.found_of_run (h : s.Inv thread) (hc : s.Released c)
    (hrun : Basis.run (State.step thread) s acts = some t) :
    c ∈ t.waitRoutines ∨ t.Taken c ∨ .resume c ∈ acts := by
  induction acts generalizing s with
  | nil =>
    cases hrun
    exact (h.found hc.1).imp_right .inl
  | cons a acts ih =>
    rw [run_cons] at hrun
    obtain ⟨u, hs, hrest⟩ := bind_eq_some_iff.1 hrun
    by_cases ha : a = .resume c
    · exact .inr (.inr (ha ▸ mem_cons_self))
    · have hnext := ih (h.step hs) (h.released hc hs ha) hrest
      exact hnext.imp_right (.imp_right (mem_cons_of_mem a))

theorem State.Inv.pending (h : s.Inv thread) (hc : c ∈ s.resumes)
    (hs : s.step thread a = some t) (ha : a ≠ .resume c) : c ∈ t.resumes := by
  cases step_of_step hs with
  | move hrun hm =>
    cases hm with
    | notify => exact mem_append_left _ hc
    | _ => exact hc
  | mutex | mutexResume | run | yield => exact hc
  | @resume d hfree hmem _ ht =>
    rw [h.step_resume hfree hmem] at ht
    cases ht
    have hd : c ≠ d := fun hd => ha (by rw [hd])
    exact (mem_erase_of_ne hd).2 hc

theorem State.Inv.resumed (h : s.Inv thread) (hs : s.step thread (.resume c) = some t) :
    s.pcs c = .suspended ∧ t.pcs c = .waitLock := by
  obtain ⟨⟨hfree, hmem⟩, -⟩ := ite_none_right_eq_some.1 hs
  refine ⟨h.suspended_of_pending hfree hmem, ?_⟩
  rw [h.step_resume hfree hmem] at hs
  cases hs
  exact update_self ..

theorem State.Inv.returns (h : s.Inv thread) (hs : s.step thread a = some t)
    (hc : s.pcs c = .waitLock) (hidle : t.pcs c = .idle) :
    t.mutex.pcs c = .inside ∧ ∀ d, t.mutex.pcs d = .inside → d = c := by
  have hinside : t.mutex.pcs c = .inside := by
    cases step_of_step hs with
    | @move _ d _ hrun hm =>
      by_cases hd : c = d
      · subst hd
        cases hm with
        | waited _ hin => exact hin
        | quiet hsame | lock hsame | unlock hsame =>
          -- the call would have ended without an event in the history
          have hphase := hsame.phase
          have hidle : update s.pcs c _ c = .idle := hidle
          rw [update_self] at hidle
          rw [hidle, hc] at hphase
          cases hphase
        | suspend h' | wait h' | wake h' | enqueue h' | take h' | notify h' | woke h' =>
          rw [hc] at h'
          cases h'
      · rw [hm.frame.2.2 c hd, hc] at hidle
        cases hidle
    | mutex | mutexResume | run | yield =>
      have hidle : s.pcs c = .idle := hidle
      rw [hc] at hidle
      cases hidle
    | @resume d hfree hmem _ ht =>
      rw [h.step_resume hfree hmem] at ht
      cases ht
      have hidle : update s.pcs d .waitLock c = .idle := hidle
      rcases eq_or_ne c d with rfl | hd
      · rw [update_self] at hidle
        cases hidle
      · rw [update_of_ne hd, hc] at hidle
        cases hidle
  exact ⟨hinside, fun d hd => (h.step hs).mutex.exclusive hd hinside⟩

def waits (log : List (Event ι (Op ι) (List ι))) (c : ι) : ℕ := (effects log).count (.wait c, [])

def State.past (s : State ι τ) (c : ι) : ℤ := waits s.log c - (s.pcs c).registered

omit [DecidableEq τ] [Fintype ι] in
theorem past_goto {pc : Pc ι} {es : List (Event ι (Op ι) (List ι))}
    (ht : t.pcs = update s.pcs c pc) (hlog : t.log = s.log ++ es)
    (hother : ∀ d, d ≠ c → waits es d = 0)
    (hc : waits es c + (s.pcs c).registered = pc.registered) (d : ι) : t.past d = s.past d := by
  have hwaits : waits t.log d = waits s.log d + waits es d := by
    unfold waits
    rw [hlog, effects_append, count_append]
  unfold State.past
  rw [ht, hwaits]
  by_cases hd : d = c
  · subst hd
    rw [update_self]
    omega
  · rw [update_of_ne hd, hother d hd]
    omega

omit [DecidableEq τ] [Fintype ι] in
theorem State.Move.past (hm : s.Move c t) (d : ι) : t.past d = s.past d := by
  -- a step without an event
  have hquiet : ∀ {u : State ι τ} {pc : Pc ι}, u.pcs = s.pcs → u.log = s.log →
      pc.registered = (s.pcs c).registered → (u.goto c pc).past d = s.past d := by
    intro u pc hpcs hlog hpc
    have hpcs' : (u.goto c pc).pcs = update s.pcs c pc := by rw [← hpcs]; rfl
    have hlog' : (u.goto c pc).log = s.log ++ [] := hlog.trans (append_nil _).symm
    refine past_goto hpcs' hlog' (fun _ _ => rfl) ?_ d
    rw [hpc]
    exact zero_add _
  cases hm with
  | wait hc | wake hc hstage all | waited hc
  | woke hc => exact past_goto rfl rfl (fun _ _ => rfl) (by rw [hc]; rfl) d
  | quiet hsame | lock hsame | unlock hsame => exact hquiet rfl rfl hsame.registered
  | enqueue hc =>
    refine past_goto rfl rfl (fun e he => ?_) ?_ d
    · exact count_eq_zero.2 (by simp [effects, Event.effect?, he])
    · rw [hc]
      exact count_singleton_self
  | suspend hc | notify hc => exact hquiet rfl rfl (by rw [hc]; rfl)
  | @take all infos rest hc =>
    refine past_goto rfl rfl (fun e _ => ?_) ?_ d
    · exact count_eq_zero.2 (by simp [effects, Event.effect?])
    · rw [hc]
      exact count_eq_zero.2 (by simp [effects, Event.effect?])

theorem State.Inv.past_step (h : s.Inv thread) (hs : s.step thread a = some t)
    (c : ι) : t.past c = s.past c + ([a].count (.resume c) : ℕ) := by
  by_cases ha : a = .resume c
  · subst ha
    obtain ⟨⟨hfree, hmem⟩, -⟩ := ite_none_right_eq_some.1 hs
    rw [h.step_resume hfree hmem] at hs
    cases hs
    have hwaiting : (s.pcs c).registered = 1 := h.registered_of_pending hmem
    have hresumed : update s.pcs c .waitLock c = .waitLock := update_self ..
    show (waits s.log c : ℤ) - (update s.pcs c .waitLock c).registered = _
    rw [hresumed, count_singleton_self, State.past, hwaiting]
    show (waits s.log c : ℤ) - (0 : ℕ) = waits s.log c - (1 : ℕ) + (1 : ℕ)
    omega
  · have hcount : [a].count (.resume c) = 0 := count_eq_zero.2 (by simp [Ne.symm ha])
    suffices hsame : t.past c = s.past c by omega
    cases step_of_step hs with
    | move hrun hm => exact hm.past c
    | mutex | mutexResume | run | yield => rfl
    | @resume d hfree hmem _ ht =>
      rw [h.step_resume hfree hmem] at ht
      cases ht
      have hd : c ≠ d := fun hd => ha (by rw [hd])
      show (waits s.log c : ℤ) - (update s.pcs d .waitLock c).registered = _
      rw [update_of_ne hd]
      rfl

theorem State.Inv.past_run (h : s.Inv thread)
    (hrun : Basis.run (State.step thread) s acts = some t) (c : ι) :
    t.past c = s.past c + (acts.count (.resume c) : ℕ) := by
  induction acts generalizing s with
  | nil =>
    cases hrun
    rw [count_nil]
    exact (Int.add_zero _).symm
  | cons a acts ih =>
    rw [run_cons] at hrun
    obtain ⟨u, hs, hrest⟩ := bind_eq_some_iff.1 hrun
    have hnext := ih (h.step hs) hrest
    have hfirst := h.past_step hs c
    rw [← singleton_append (x := a), count_append]
    omega

omit [Fintype ι] in
theorem step_mutex {a : Lock.Action ι} {m : Mutex ι}
    (ha : a ∈ [Lock.Action.unlock c, .load c, .unlockLoop c false, .post c])
    (hrun : s.running (thread c) = some c) (hpc : s.pcs c = .waitUnlock)
    (hm : s.mutex.step a = some m) :
    s.step thread (.mutex a) = some { s with mutex := m } := by
  simp only [mem_cons, not_mem_nil, or_false] at ha
  rcases ha with rfl | rfl | rfl | rfl <;>
    simp [State.step, State.mayUse, Lock.Action.coroutine, hrun, hpc, hm]

theorem State.Inv.exists_suspended_of_unlock (h : s.Inv thread) (hpc : s.pcs c = .waitUnlock)
    (hrun : s.running (thread c) = some c) :
    ∃ acts t, Basis.run (State.step thread) s acts = some t ∧ t.pcs c = .suspended ∧
      t.running = s.running ∧ t.resumes = s.resumes := by
  -- induction on what is left of `unlock`
  induction hn : s.mutex.unlockRank c using Nat.strong_induction_on generalizing s with
  | _ n ih =>
    have hfits := h.fits c
    rw [hpc] at hfits
    by_cases hout : s.mutex.pcs c = .outside
    · refine ⟨[.next c false], s.goto c .suspended, ?_, update_self .., rfl, rfl⟩
      simp [Basis.run, State.step, State.next, hrun, hpc, hout]
    · have hstage : (s.mutex.pcs c).stage = .inside ∨ (s.mutex.pcs c).stage = .unlocking := by
        cases hm : s.mutex.pcs c <;> rw [hm] at hfits hout <;>
          first | exact .inl rfl | exact .inr rfl | exact absurd rfl hfits | exact absurd rfl hout
      obtain ⟨a, ha, m, hm, hlt⟩ := h.mutex.exists_unlock_step hstage
      have hs := step_mutex ha hrun hpc hm
      obtain ⟨acts, t, ht, hsuspended, hrunning, hresumes⟩ :=
        ih _ (hn ▸ hlt) (h.step hs) hpc hrun rfl
      refine ⟨.mutex a :: acts, t, ?_, hsuspended, hrunning, hresumes⟩
      rw [run_cons, hs]
      exact ht

/-- **A resumption ends the wait,** also if it is issued before the waiter has yielded: the waiter
gets to its yield, and is resumed there. -/
theorem State.Inv.ends (h : s.Inv thread) (hmem : c ∈ s.resumes)
    (hthread : s.running (thread c) = none ∨ s.running (thread c) = some c) :
    ∃ acts t, Basis.run (State.step thread) s acts = some t ∧ t.pcs c = .waitLock := by
  -- once the thread executes nothing, it takes the resumption
  have hlast : ∀ u : State ι τ, u.Inv thread → u.running (thread c) = none → c ∈ u.resumes →
      ∃ t, Basis.run (State.step thread) u [.resume c] = some t ∧ t.pcs c = .waitLock := by
    intro u hu hfree hmem
    have hs := hu.step_resume hfree hmem
    exact ⟨_, by rw [run_cons, hs]; rfl, (hu.resumed hs).2⟩
  rcases hthread with hfree | hrun
  · obtain ⟨t, ht, hpc⟩ := hlast s h hfree hmem
    exact ⟨_, t, ht, hpc⟩
  · -- the coroutine is executed: it goes on to its yield
    have hyield : ∃ acts u, Basis.run (State.step thread) s acts = some u ∧
        u.pcs c = .suspended ∧ u.running = s.running ∧ u.resumes = s.resumes := by
      have hregistered := h.registered_of_pending hmem
      cases hpc : s.pcs c with
      | suspended => exact ⟨[], s, rfl, hpc, rfl, rfl⟩
      | waitUnlock => exact h.exists_suspended_of_unlock hpc hrun
      | waitStore =>
        have hs : s.step thread (.next c false) =
            some ({ s with res := 0 }.goto c .waitUnlock) := by
          simp [State.step, State.next, hrun, hpc]
        obtain ⟨acts, u, hu, hrest⟩ :=
          (h.step hs).exists_suspended_of_unlock (update_self ..) hrun
        refine ⟨.next c false :: acts, u, ?_, hrest⟩
        rw [run_cons, hs]
        exact hu
      | _ =>
        rw [hpc] at hregistered
        cases hregistered
    obtain ⟨acts, u, hu, hsuspended, hrunning, hresumes⟩ := hyield
    have hrests : u.rests c = true := by
      unfold State.rests
      rw [hsuspended]
    have hs : u.step thread (.yield c) =
        some { u with running := update u.running (thread c) none } :=
      if_pos ⟨hrunning ▸ hrun, hrests⟩
    have hinv := run_invariant (fun _ _ _ ht hs => ht.step hs) h hu
    obtain ⟨t, ht, hpc⟩ := hlast _ (hinv.step hs) (update_self ..) (hresumes ▸ hmem)
    refine ⟨acts ++ [.yield c, .resume c], t, ?_, hpc⟩
    rw [run_append, hu]
    show Basis.run (State.step thread) u [.yield c, .resume c] = some t
    rw [run_cons, hs]
    exact ht

/-- After the steps `acts`, no wake-up is lost. -/
structure State.Wakes (thread : ι → τ) (acts : List (Action ι)) (s : State ι τ) : Prop where
  /-- Whoever comes after a waiter has unlocked the mutex finds the waiter in the queue, unless it
  was taken from it or resumed. -/
  found : ∀ c, s.Released c → ∀ acts t, Basis.run (State.step thread) s acts = some t →
    c ∈ t.waitRoutines ∨ t.Taken c ∨ .resume c ∈ acts
  /-- `signal` takes the coroutine that waits longest, if there is one, and `broadcast` takes all
  that wait, in some order of the calls that respects their real-time order. -/
  history : Linearizes spec [] s.log s.waitRoutines s.phase
  /-- What was taken is not lost: who waits is in exactly one place. -/
  placed : s.Placed
  /-- Every call of `wait` is resumed at most once. -/
  once : ∀ c, acts.count (.resume c) + (s.pcs c).registered = waits s.log c
  /-- A resumption that was issued stays until the thread takes it. -/
  pending : ∀ c, c ∈ s.resumes → ∀ a t, s.step thread a = some t → a ≠ .resume c → c ∈ t.resumes
  /-- It is taken when the coroutine has yielded, and sends it on to `lock.lock()`. -/
  resumed : ∀ c t, s.step thread (.resume c) = some t → s.pcs c = .suspended ∧ t.pcs c = .waitLock
  /-- The coroutine gets there also if it has not yielded when the resumption is issued. -/
  ends : ∀ c, c ∈ s.resumes → s.running (thread c) = none ∨ s.running (thread c) = some c →
    ∃ acts t, Basis.run (State.step thread) s acts = some t ∧ t.pcs c = .waitLock
  /-- `wait` returns with the mutex. -/
  returns : ∀ c a t, s.step thread a = some t → s.pcs c = .waitLock → t.pcs c = .idle →
    t.mutex.pcs c = .inside ∧ ∀ d, t.mutex.pcs d = .inside → d = c

theorem wakes_of_run
    (h : Basis.run (State.step thread) (State.init ι τ) acts = some s) : s.Wakes thread acts := by
  have hinv : s.Inv thread := .of_run h
  exact {
    found := fun _ hc _ _ hrun => hinv.found_of_run hc hrun
    history := hinv.lin
    placed := hinv.placed
    once := by
      intro c
      have hinit : (State.init ι τ).Inv thread := .init
      have hpast := hinit.past_run h c
      unfold State.past at hpast
      change _ = ((0 : ℕ) : ℤ) - (0 : ℕ) + _ at hpast
      omega
    pending := fun _ hc _ _ hs ha => hinv.pending hc hs ha
    resumed := fun _ _ hs => hinv.resumed hs
    ends := fun _ hc hthread => hinv.ends hc hthread
    returns := fun _ _ _ hs hc hidle => hinv.returns hs hc hidle }

end Cond

/-- **No wake-up is lost.**  In every run, with any number of coroutines on any threads that call
`wait` from inside the mutex, and `signal` and `broadcast` as they like. -/
theorem no_wakeup_lost {ι τ : Type} [DecidableEq ι] [DecidableEq τ] [Fintype ι] (thread : ι → τ)
    (acts : List (Cond.Action ι)) (s : Cond.State ι τ)
    (h : run (Cond.State.step thread) (Cond.State.init ι τ) acts = some s) :
    s.Wakes thread acts :=
  Cond.wakes_of_run h

/-- Coroutine 0 waits.  It has unlocked the mutex and not yielded when coroutine 1, on another
thread, locks the mutex and signals. -/
def signalBeforeYield : List (Cond.Action (Fin 2)) :=
  [Cond.Action.run 0, .run 1, .mutex (.lock 0 false), .wait 0] ++
    List.replicate 4 (Cond.Action.next 0 false) ++
    [Cond.Action.mutex (.unlock 0), .mutex (.lock 1 false), .signal 1] ++
    List.replicate 6 (Cond.Action.next 1 false) ++
    [Cond.Action.next 0 false, .yield 0, .resume 0, .mutex (.unlock 1), .mutex (.lock 0 false),
      .next 0 false]

theorem no_wakeup_lost_signalBeforeYield : ∃ s,
    run (Cond.State.step id) (Cond.State.init (Fin 2) (Fin 2)) signalBeforeYield = some s ∧
      s.pcs 0 = .idle ∧ s.mutex.pcs 0 = .inside ∧ s.Wakes id signalBeforeYield := by
  exact exists_run_of_imp (P := fun s => s.pcs 0 = .idle ∧ s.mutex.pcs 0 = .inside)
    (by decide +kernel) fun s hs ⟨hidle, hinside⟩ =>
      ⟨hidle, hinside, no_wakeup_lost id signalBeforeYield s hs⟩

end Corpc.Lock
