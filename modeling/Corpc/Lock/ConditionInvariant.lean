/-
# The condition variable loses no wake-up

The invariant of `Cond.State.step`.  The history linearizes to a first-in-first-out queue of
waiters.
-/

import Corpc.Lock.Condition

namespace Corpc.Lock
namespace Cond

open Corpc.Basis Function List Option

section Places

variable {ι τ : Type}

namespace Pc

/-- The coroutine has exchanged `res_` for 1 and has not stored. -/
def locks : Pc ι → Bool
  | .waitPush | .waitStore | .wakeLocked _ | .wakeStore _ => true
  | _ => false

/-- How far the call of coroutine `c` is. -/
def phase (c : ι) : Pc ι → Phase (Op ι) (List ι)
  | .idle => .idle
  | .waitLoad | .waitTry _ | .waitPush => .called (.wait c)
  | .waitStore | .waitUnlock | .suspended | .waitLock => .effected []
  | .wakeLoad all | .wakeTry all _ | .wakeLocked all => .called (.wake all)
  | .wakeStore infos | .wakeResume infos _ => .effected infos

/-- In `wait`, in the queue or taken from it, and not resumed. -/
def registered : Pc ι → ℕ
  | .waitStore | .waitUnlock | .suspended => 1
  | _ => 0

/-- What a `signal` or `broadcast` has taken from the queue and not resumed yet. -/
def hands : Pc ι → List ι
  | .wakeStore infos => infos
  | .wakeResume _ todo => todo
  | _ => []

def fits : Pc ι → Stage → Prop
  | .idle, _ => True
  | .waitLoad, stage | .waitTry _, stage | .waitPush, stage | .waitStore, stage => stage = .inside
  | .waitUnlock, stage => stage ≠ .locking
  | .suspended, stage => stage = .outside
  | .waitLock, stage => stage ≠ .unlocking
  | _, stage => stage = .inside ∨ stage = .outside

theorem not_fits_locking {pc : Pc ι} (h : pc.registered = 1) : ¬pc.fits .locking := by
  cases pc <;> simp [fits, registered] at h ⊢

end Pc

def State.phase (s : State ι τ) (c : ι) : Phase (Op ι) (List ι) := (s.pcs c).phase c

/-- The coroutine has unlocked the mutex in `wait`, and was not resumed. -/
def State.Released (s : State ι τ) (c : ι) : Prop :=
  (s.pcs c).registered = 1 ∧ s.mutex.pcs c ≠ .inside

/-- A `signal` or `broadcast` has taken the coroutine. -/
def State.Taken (s : State ι τ) (c : ι) : Prop := c ∈ s.resumes ∨ ∃ d, c ∈ (s.pcs d).hands

end Places

variable {ι τ : Type} [DecidableEq ι]

/-- The history, the places and the mutex do not tell `pc'` from `pc`. -/
structure Pc.Same (c : ι) (pc pc' : Pc ι) : Prop where
  phase : pc'.phase c = pc.phase c
  registered : pc'.registered = pc.registered
  hands : pc'.hands = pc.hands
  fits : ∀ stage, pc.fits stage → pc'.fits stage

inductive State.Move (s : State ι τ) (c : ι) : State ι τ → Prop
  | wait (hc : s.pcs c = .idle) (hinside : s.mutex.pcs c = .inside) :
      s.Move c ((s.goto c .waitLoad).record (.call c (.wait c)))
  | wake (hc : s.pcs c = .idle) (hstage : s.mutex.pcs c = .inside ∨ s.mutex.pcs c = .outside)
      (all : Bool) : s.Move c (s.wake c all)
  | quiet {pc' : Pc ι} (hsame : (s.pcs c).Same c pc') (hlocks : pc'.locks = false) :
      s.Move c (s.goto c pc')
  | lock {pc' : Pc ι} (hsame : (s.pcs c).Same c pc') (hres : s.res = 0) :
      s.Move c ({ s with res := 1 }.goto c pc')
  | unlock {pc' : Pc ι} (hsame : (s.pcs c).Same c pc') (hlocks : (s.pcs c).locks = true)
      (hlocks' : pc'.locks = false) : s.Move c ({ s with res := 0 }.goto c pc')
  | enqueue (hc : s.pcs c = .waitPush) :
      s.Move c (({ s with waitRoutines := s.waitRoutines ++ [c] }.goto c .waitStore).record
        (.effect c (.wait c) []))
  | suspend (hc : s.pcs c = .waitUnlock) (houtside : s.mutex.pcs c = .outside) :
      s.Move c (s.goto c .suspended)
  | take {all : Bool} {infos rest : List ι} (hc : s.pcs c = .wakeLocked all)
      (hspec : spec s.waitRoutines (.wake all, infos) = some rest)
      (hsplit : s.waitRoutines = infos ++ rest) :
      s.Move c (({ s with waitRoutines := rest }.goto c (.wakeStore infos)).record
        (.effect c (.wake all) infos))
  | notify {infos todo : List ι} {d : ι} (hc : s.pcs c = .wakeResume infos (d :: todo)) :
      s.Move c ({ s with resumes := s.resumes ++ [d] }.goto c (.wakeResume infos todo))
  | waited (hc : s.pcs c = .waitLock) (hinside : s.mutex.pcs c = .inside) :
      s.Move c ((s.goto c .idle).record (.ret c []))
  | woke {infos : List ι} (hc : s.pcs c = .wakeResume infos []) :
      s.Move c ((s.goto c .idle).record (.ret c infos))

variable {s t : State ι τ} {c : ι}

theorem move_of_next {spurious : Bool} (hs : s.next c spurious = some t) : s.Move c t := by
  unfold State.next at hs
  cases hc : s.pcs c with
  | idle | suspended => simp only [hc] at hs; cases hs
  | waitLoad | wakeLoad all =>
    simp only [hc] at hs
    cases hs
    exact .quiet (by rw [hc]; exact ⟨rfl, rfl, rfl, fun _ => id⟩) rfl
  | waitTry v | wakeTry all v =>
    simp only [hc] at hs
    cases hs
    split
    · rename_i hres
      exact .lock (by rw [hc]; exact ⟨rfl, rfl, rfl, fun _ => id⟩) (hres.2.1.trans hres.1)
    · exact .quiet (by rw [hc]; exact ⟨rfl, rfl, rfl, fun _ => id⟩) rfl
  | waitPush =>
    simp only [hc] at hs
    cases hs
    exact .enqueue hc
  | waitStore =>
    simp only [hc] at hs
    cases hs
    have hfits : ∀ stage, (Pc.waitStore : Pc ι).fits stage → (Pc.waitUnlock : Pc ι).fits stage := by
      rintro stage hin hlocking
      cases hin.symm.trans hlocking
    exact .unlock (by rw [hc]; exact ⟨rfl, rfl, rfl, hfits⟩) (by rw [hc]; rfl) rfl
  | waitUnlock =>
    simp only [hc] at hs
    obtain ⟨hout, rfl⟩ := ite_some_none_eq_some.1 hs
    exact .suspend hc hout
  | waitLock =>
    simp only [hc] at hs
    obtain ⟨hin, rfl⟩ := ite_some_none_eq_some.1 hs
    exact .waited hc hin
  | wakeLocked all =>
    cases all with
    | false =>
      simp only [hc] at hs
      cases hs
      exact .take hc (if_pos rfl) (take_append_drop 1 _).symm
    | true =>
      simp only [hc] at hs
      cases hs
      exact .take hc (if_pos rfl) (append_nil _).symm
  | wakeStore infos =>
    simp only [hc] at hs
    cases hs
    exact .unlock (by rw [hc]; exact ⟨rfl, rfl, rfl, fun _ => id⟩) (by rw [hc]; rfl) rfl
  | wakeResume infos todo =>
    cases todo with
    | nil =>
      simp only [hc] at hs
      cases hs
      exact .woke hc
    | cons d todo =>
      simp only [hc] at hs
      cases hs
      exact .notify hc

variable [DecidableEq τ] {thread : ι → τ}

inductive State.Step (thread : ι → τ) (s : State ι τ) : Action ι → State ι τ → Prop
  | move {a : Action ι} {c : ι} {t : State ι τ} (hrunning : s.running (thread c) = some c)
      (hm : s.Move c t) : s.Step thread a t
  | mutex {a : Lock.Action ι} {m : Mutex ι}
      (hrunning : s.running (thread a.coroutine) = some a.coroutine) (hmay : s.mayUse a = true)
      (hm : s.mutex.step a = some m) : s.Step thread (.mutex a) { s with mutex := m }
  | mutexResume {c : ι} {m : Mutex ι} (hfree : s.running (thread c) = none)
      (hm : s.mutex.step (.resume c) = some m) :
      s.Step thread (.mutex (.resume c)) ({ s with mutex := m }.execute thread c)
  | run {c : ι} (hfree : s.running (thread c) = none) :
      s.Step thread (.run c) (s.execute thread c)
  | yield {c : ι} (hrunning : s.running (thread c) = some c) (hrests : s.rests c = true) :
      s.Step thread (.yield c) { s with running := update s.running (thread c) none }
  | resume {c : ι} (hfree : s.running (thread c) = none) (hmem : c ∈ s.resumes) {t : State ι τ}
      (ht : s.step thread (.resume c) = some t) : s.Step thread (.resume c) t

theorem step_of_step {a : Action ι} (hs : s.step thread a = some t) : s.Step thread a t := by
  cases a with
  | wait c =>
    obtain ⟨⟨hrun, hc, hin⟩, hs⟩ := ite_none_right_eq_some.1 hs
    exact .move hrun (some.inj hs ▸ .wait hc hin)
  | signal c =>
    obtain ⟨⟨hrun, hc, hstage⟩, hs⟩ := ite_none_right_eq_some.1 hs
    exact .move hrun (some.inj hs ▸ .wake hc hstage false)
  | broadcast c =>
    obtain ⟨⟨hrun, hc, hstage⟩, hs⟩ := ite_none_right_eq_some.1 hs
    exact .move hrun (some.inj hs ▸ .wake hc hstage true)
  | next c spurious =>
    obtain ⟨hrun, hs⟩ := ite_none_right_eq_some.1 hs
    exact .move hrun (move_of_next hs)
  | mutex a =>
    by_cases ha : ∃ c, a = .resume c
    · obtain ⟨c, rfl⟩ := ha
      obtain ⟨hfree, hs⟩ := ite_none_right_eq_some.1 hs
      obtain ⟨m, hm, rfl⟩ := map_eq_some_iff.1 hs
      exact .mutexResume hfree hm
    · have hs : (if s.running (thread a.coroutine) = some a.coroutine ∧ s.mayUse a = true then
          (s.mutex.step a).map fun m => { s with mutex := m } else none) = some t := by
        cases a with
        | resume c => exact absurd ⟨c, rfl⟩ ha
        | _ => exact hs
      obtain ⟨⟨hrun, hmay⟩, hs⟩ := ite_none_right_eq_some.1 hs
      obtain ⟨m, hm, rfl⟩ := map_eq_some_iff.1 hs
      exact .mutex hrun hmay hm
  | run c =>
    obtain ⟨⟨hfree, -⟩, rfl⟩ := ite_some_none_eq_some.1 hs
    exact .run hfree
  | yield c =>
    obtain ⟨⟨hrun, hrests⟩, rfl⟩ := ite_some_none_eq_some.1 hs
    exact .yield hrun hrests
  | resume c =>
    have hstep := hs
    obtain ⟨⟨hfree, hmem⟩, -⟩ := ite_none_right_eq_some.1 hs
    exact .resume hfree hmem hstep

section Parts

omit [DecidableEq τ]

/-- At most one coroutine works on `waitRoutines_`. -/
structure State.Locking (s : State ι τ) : Prop where
  locked : ∀ {c}, (s.pcs c).locks = true → s.res = 1
  unique : ∀ {c d}, (s.pcs c).locks = true → (s.pcs d).locks = true → d = c

variable {pc : Pc ι}

theorem State.Locking.goto (h : s.Locking) (ht : t.pcs = update s.pcs c pc)
    (hlocks : pc.locks = true → t.res = 1 ∧ ((s.pcs c).locks = true ∨ s.res ≠ 1))
    (hres : t.res = s.res ∨ (s.pcs c).locks = true ∨ s.res ≠ 1) : t.Locking := by
  have h : Exclusive Pc.locks s.pcs (s.res = 1) := ⟨h.locked, h.unique⟩
  -- no other coroutine works on the list
  have halone : (s.pcs c).locks = true ∨ s.res ≠ 1 → ∀ d, d ≠ c → (s.pcs d).locks = false := by
    rintro (hc | hc)
    · exact h.alone_of_locks hc
    · exact h.alone_of_free hc
  have hexclusive : Exclusive Pc.locks t.pcs (t.res = 1) := by
    rw [ht]
    exact h.update (fun hl => (hlocks hl).imp_right halone) (hres.imp Eq.trans halone)
  exact ⟨hexclusive.taken, hexclusive.unique⟩

theorem State.Locking.move (h : s.Locking) (hm : s.Move c t) : t.Locking := by
  cases hm with
  | wait hc | wake hc hstage all | suspend hc | notify hc | waited hc
  | woke hc => exact h.goto rfl (by nofun) (.inl rfl)
  | quiet hsame hlocks =>
    refine h.goto rfl (fun hl => ?_) (.inl rfl)
    rw [hlocks] at hl
    cases hl
  | lock hsame hres => exact h.goto rfl (fun _ => ⟨rfl, .inr (by omega)⟩) (.inr (.inr (by omega)))
  | unlock hsame hlocks hlocks' =>
    refine h.goto rfl (fun hl => ?_) (.inr (.inl hlocks))
    rw [hlocks'] at hl
    cases hl
  | enqueue hc | take hc =>
    have hl : (s.pcs c).locks = true := by rw [hc]; rfl
    exact h.goto rfl (fun _ => ⟨h.locked hl, .inl hl⟩) (.inl rfl)

theorem linearizes_of (ht : t.pcs = update s.pcs c pc)
    (h : Linearizes spec [] t.log t.waitRoutines (update s.phase c (pc.phase c))) :
    Linearizes spec [] t.log t.waitRoutines t.phase := by
  show Linearizes spec [] t.log t.waitRoutines fun d => (t.pcs d).phase d
  rw [ht]
  exact h.of_update

theorem linearizes_silent (h : Linearizes spec [] s.log s.waitRoutines s.phase)
    (ht : t.pcs = update s.pcs c pc) (hphase : pc.phase c = (s.pcs c).phase c)
    (hlog : t.log = s.log) (hlist : t.waitRoutines = s.waitRoutines) :
    Linearizes spec [] t.log t.waitRoutines t.phase := by
  show Linearizes spec [] t.log t.waitRoutines fun d => (t.pcs d).phase d
  rw [ht, hlog, hlist]
  exact Linearizes.silent h hphase

theorem linearizes_move (h : Linearizes spec [] s.log s.waitRoutines s.phase) (hm : s.Move c t) :
    Linearizes spec [] t.log t.waitRoutines t.phase := by
  cases hm with
  | wait hc => exact linearizes_of rfl (h.call (by rw [State.phase, hc]; rfl) (.wait c))
  | wake hc hstage all =>
    exact linearizes_of rfl (h.call (by rw [State.phase, hc]; rfl) (.wake all))
  | quiet hsame | lock hsame | unlock hsame => exact linearizes_silent h rfl hsame.phase rfl rfl
  | enqueue hc =>
    have hspec : spec s.waitRoutines (.wait c, []) = some (s.waitRoutines ++ [c]) := by
      simp only [spec, if_true]
    exact linearizes_of rfl (h.effect (by rw [State.phase, hc]; rfl) hspec)
  | suspend hc | notify hc => exact linearizes_silent h rfl (by rw [hc]; rfl) rfl rfl
  | take hc hspec => exact linearizes_of rfl (h.effect (by rw [State.phase, hc]; rfl) hspec)
  | waited hc | woke hc => exact linearizes_of rfl (h.ret (by rw [State.phase, hc]; rfl))

variable [Fintype ι]

/-- **A coroutine that waits is in one place,** and no other coroutine is anywhere. -/
def State.Placed (s : State ι τ) : Prop :=
  ∀ d, s.waitRoutines.count d + tally (fun pc => pc.hands.count d) s.pcs + s.resumes.count d =
    (s.pcs d).registered

theorem State.Placed.goto (h : s.Placed) (ht : t.pcs = update s.pcs c pc)
    (hd : ∀ d, t.waitRoutines.count d + t.resumes.count d + pc.hands.count d +
        (if d = c then (s.pcs c).registered else 0) =
      s.waitRoutines.count d + s.resumes.count d + (s.pcs c).hands.count d +
        (if d = c then pc.registered else 0)) : t.Placed := by
  have hlisted : ∀ d, s.waitRoutines.count d + s.resumes.count d +
      tally (fun pc => pc.hands.count d) s.pcs = (s.pcs d).registered := by
    intro d
    have hbefore := h d
    omega
  intro d
  have hafter := listed_update hlisted hd d
  rw [ht]
  omega

theorem State.Placed.goto_same (h : s.Placed)
    (ht : t.pcs = update s.pcs c pc) (hlist : t.waitRoutines = s.waitRoutines)
    (hresumes : t.resumes = s.resumes) (hhands : pc.hands = (s.pcs c).hands)
    (hregistered : pc.registered = (s.pcs c).registered) : t.Placed := by
  refine h.goto ht fun d => ?_
  rw [hlist, hresumes, hregistered, hhands]

theorem State.Placed.move (h : s.Placed) (hm : s.Move c t) : t.Placed := by
  cases hm with
  | wait hc | wake hc | suspend hc | waited hc
  | woke hc => exact h.goto_same rfl rfl rfl (by rw [hc]; rfl) (by rw [hc]; rfl)
  | quiet hsame | lock hsame
  | unlock hsame => exact h.goto_same rfl rfl rfl hsame.hands hsame.registered
  | enqueue hc =>
    refine h.goto rfl fun d => ?_
    show (s.waitRoutines ++ [c]).count d + s.resumes.count d + _ + _ = _
    rw [hc, count_append, count_singleton]
    simp only [Pc.hands, Pc.registered, beq_iff_eq, eq_comm (a := c), count_nil, ite_self]
    omega
  | @take all infos rest hc hspec hsplit =>
    -- what is taken comes into the hands of this coroutine
    refine h.goto rfl fun d => ?_
    show rest.count d + s.resumes.count d + _ + _ = _
    rw [hc, hsplit, count_append]
    simp only [Pc.hands, Pc.registered, count_nil, ite_self]
    omega
  | @notify infos todo e hc =>
    refine h.goto rfl fun d => ?_
    show s.waitRoutines.count d + (s.resumes ++ [e]).count d + _ + _ = _
    rw [hc, count_append]
    simp only [Pc.hands, Pc.registered, count_cons, count_nil, ite_self]
    omega

omit [Fintype ι] in
theorem State.Move.frame (hm : s.Move c t) : t.mutex = s.mutex ∧ t.running = s.running ∧
    ∀ d, d ≠ c → t.pcs d = s.pcs d := by
  cases hm <;> exact ⟨rfl, rfl, fun d hd => update_of_ne hd ..⟩

omit [Fintype ι] in
theorem State.Move.fits (hm : s.Move c t) (h : (s.pcs c).fits (s.mutex.pcs c).stage) :
    (t.pcs c).fits (s.mutex.pcs c).stage := by
  have hself : ∀ (u : State ι τ) (pc : Pc ι), (u.goto c pc).pcs c = pc :=
    fun u pc => update_self ..
  cases hm with
  | wait hc hin =>
    show ((s.goto c .waitLoad).pcs c).fits _
    rw [hself, hin]
    rfl
  | wake hc hstage all =>
    show ((s.goto c (.wakeLoad all)).pcs c).fits _
    rw [hself]
    rcases hstage with hin | hout
    · rw [hin]
      exact .inl rfl
    · rw [hout]
      exact .inr rfl
  | quiet hsame | lock hsame | unlock hsame => rw [hself]; exact hsame.fits _ h
  | enqueue hc =>
    rw [hc] at h
    show ((State.goto _ c .waitStore).pcs c).fits _
    rw [hself]
    exact h
  | suspend hc hout =>
    rw [hself, hout]
    rfl
  | @take all infos rest hc =>
    rw [hc] at h
    show ((State.goto _ c (.wakeStore infos)).pcs c).fits _
    rw [hself]
    exact h
  | notify hc =>
    rw [hc] at h
    rw [hself]
    exact h
  | waited hc | woke hc =>
    show ((s.goto c .idle).pcs c).fits _
    rw [hself]
    trivial

variable {a : Lock.Action ι}

omit [Fintype ι] in
theorem wokenByPost_of_mayUse (hmay : s.mayUse a = true) :
    s.mutex.wokenByPost a = true := by
  cases a with
  | activate c => cases hmay
  | _ => rfl

omit [Fintype ι] in
theorem fits_mutex {m : Mutex ι} (hmay : s.mayUse a = true)
    (hm : s.mutex.step a = some m) (h : ∀ c, (s.pcs c).fits (s.mutex.pcs c).stage) (c : ι) :
    (s.pcs c).fits (m.pcs c).stage := by
  by_cases hc : c = a.coroutine
  · subst hc
    have hfits := h a.coroutine
    have hstages := Mutex.stages_of_step hm
    generalize (s.mutex.pcs a.coroutine).stage = stage at hfits hstages
    generalize (m.pcs a.coroutine).stage = stage' at hstages ⊢
    cases hstages with
    | lock spurious ha h' =>
      rw [ha] at hmay
      rcases of_decide_eq_true hmay with hpc | hpc
      · rw [hpc]
        trivial
      · rw [hpc]
        rintro rfl
        simp at h'
    | locking h' =>
      cases hpc : s.pcs a.coroutine with
      | idle => trivial
      | waitLock =>
        rintro rfl
        simp at h'
      | _ =>
        rw [hpc] at hfits
        simp [Pc.fits] at hfits
    | unlock ha h' =>
      rw [ha] at hmay
      rcases of_decide_eq_true hmay with hpc | hpc
      · rw [hpc]
        trivial
      · rw [hpc]
        exact h'
    | unlocking h' =>
      cases hpc : s.pcs a.coroutine with
      | idle => trivial
      | waitUnlock =>
        rintro rfl
        simp at h'
      | _ =>
        rw [hpc] at hfits
        simp [Pc.fits] at hfits
  · rw [Mutex.stage_of_ne hm hc]
    exact h c

omit [Fintype ι] [DecidableEq ι] in
theorem rests_congr {s t : State ι τ} {d : ι} (hpc : t.pcs d = s.pcs d)
    (hmutex : t.mutex.pcs d = s.mutex.pcs d) : t.rests d = s.rests d := by
  unfold State.rests
  rw [hpc, hmutex]

omit [Fintype ι] in
theorem rests_mutex {m : Mutex ι} (hm : s.mutex.step a = some m) {d : ι}
    (hd : d ≠ a.coroutine) (hrests : s.rests d = true) : { s with mutex := m }.rests d = true := by
  rcases Mutex.pcs_of_step hm hd with hsame | ⟨l, -, hpopped⟩
  · have hcongr := rests_congr (s := s) (t := { s with mutex := m }) rfl hsame
    exact hcongr.trans hrests
  · unfold State.rests
    dsimp only
    rw [hpopped]
    cases s.pcs d <;> rfl

omit [Fintype ι] [DecidableEq ι] in
theorem locking_of_rests (hrests : s.rests c = true) (hidle : s.pcs c ≠ .idle)
    (hsuspended : s.pcs c ≠ .suspended) : (s.mutex.pcs c).stage = .locking := by
  unfold State.rests at hrests
  split at hrests
  · contradiction
  · rename_i l hmutex hne
    rw [hmutex]
    rfl
  · rename_i l hmutex hne
    rw [hmutex]
    rfl
  · contradiction
  · contradiction
  · cases hrests

end Parts

variable [Fintype ι]

structure State.Inv (thread : ι → τ) (s : State ι τ) : Prop where
  mutex : s.mutex.Inv
  lin : Linearizes spec [] s.log s.waitRoutines s.phase
  locking : s.Locking
  placed : s.Placed
  fits : ∀ c, (s.pcs c).fits (s.mutex.pcs c).stage
  /-- A coroutine that its thread does not execute rests. -/
  threads : ∀ c, s.running (thread c) = some c ∨ s.rests c = true

namespace State.Inv

omit [DecidableEq τ] in
theorem init : (State.init ι τ).Inv thread where
  mutex := Mutex.inv_init
  lin := linearizes_nil _ _
  locking := ⟨nofun, nofun⟩
  placed := by
    intro d
    show 0 + tally (fun pc => pc.hands.count d) (fun _ : ι => (Pc.idle : Pc ι)) + 0 = 0
    rw [tally_const (f := fun pc : Pc ι => pc.hands.count d) (b := .idle) rfl]
  fits := fun _ => trivial
  threads := fun _ => .inr rfl

omit [DecidableEq τ] in
theorem registered_of_pending (h : s.Inv thread) (hmem : c ∈ s.resumes) :
    (s.pcs c).registered = 1 := by
  have hplaced := h.placed c
  have hpos := count_pos_iff.2 hmem
  cases hpc : s.pcs c <;> rw [hpc] at hplaced <;> simp only [Pc.registered] at hplaced ⊢ <;> omega

omit [DecidableEq τ] in
/-- **A resumption finds its coroutine suspended:** it comes when the thread executes nothing, and
then the coroutine has yielded. -/
theorem suspended_of_pending (h : s.Inv thread) (hfree : s.running (thread c) = none)
    (hmem : c ∈ s.resumes) : s.pcs c = .suspended := by
  have hregistered := h.registered_of_pending hmem
  have hfits := h.fits c
  have hrests : s.rests c = true := by
    rcases h.threads c with hrun | hrests
    · rw [hfree] at hrun
      cases hrun
    · exact hrests
  by_contra hne
  have hidle : s.pcs c ≠ .idle := by
    intro hidle
    rw [hidle] at hregistered
    cases hregistered
  rw [locking_of_rests hrests hidle hne] at hfits
  exact Pc.not_fits_locking hregistered hfits

theorem step_resume (h : s.Inv thread) (hfree : s.running (thread c) = none)
    (hmem : c ∈ s.resumes) : s.step thread (.resume c) = some
      (({ s with resumes := s.resumes.erase c }.execute thread c).goto c .waitLock) := by
  refine (if_pos ⟨hfree, hmem⟩).trans ?_
  exact congrArg some (if_pos (h.suspended_of_pending hfree hmem))

omit [DecidableEq τ] in
theorem move (h : s.Inv thread) (hrun : s.running (thread c) = some c) (hm : s.Move c t) :
    t.Inv thread := by
  obtain ⟨hmutex, hrunning, hother⟩ := hm.frame
  exact {
    mutex := hmutex ▸ h.mutex
    lin := linearizes_move h.lin hm
    locking := h.locking.move hm
    placed := h.placed.move hm
    fits := by
      intro d
      rw [hmutex]
      by_cases hd : d = c
      · subst hd
        exact hm.fits (h.fits d)
      · rw [hother d hd]
        exact h.fits d
    threads := by
      intro d
      rw [hrunning]
      by_cases hd : d = c
      · subst hd
        exact .inl hrun
      · rw [rests_congr (hother d hd) (by rw [hmutex])]
        exact h.threads d }

theorem threads_execute (h : s.Inv thread) (hfree : s.running (thread c) = none)
    (hrunning : t.running = s.running)
    (hrests : ∀ d, d ≠ c → s.rests d = true → t.rests d = true) (d : ι) :
    (t.execute thread c).running (thread d) = some d ∨ (t.execute thread c).rests d = true := by
  show update t.running (thread c) (some c) (thread d) = some d ∨ t.rests d = true
  by_cases hd : d = c
  · subst hd
    exact .inl (update_self ..)
  · by_cases hthread : thread d = thread c
    · -- the thread executed nothing, so this coroutine rests
      rcases h.threads d with hrun | hrest
      · rw [hthread, hfree] at hrun
        cases hrun
      · exact .inr (hrests d hd hrest)
    · rw [update_of_ne hthread, hrunning]
      exact (h.threads d).imp_right (hrests d hd)

theorem resume (h : s.Inv thread) (hfree : s.running (thread c) = none) (hmem : c ∈ s.resumes) :
    (({ s with resumes := s.resumes.erase c }.execute thread c).goto c .waitLock).Inv thread where
  mutex := h.mutex
  lin := by
    refine linearizes_silent h.lin rfl ?_ rfl rfl
    rw [h.suspended_of_pending hfree hmem]
    rfl
  locking := h.locking.goto rfl (by nofun) (.inl rfl)
  placed := by
    refine h.placed.goto rfl fun d => ?_
    show s.waitRoutines.count d + (s.resumes.erase c).count d + _ + _ = _
    rw [h.suspended_of_pending hfree hmem]
    by_cases hd : d = c
    · subst hd
      have hpos := count_pos_iff.2 hmem
      rw [count_erase_self, if_pos rfl, if_pos rfl]
      simp only [Pc.hands, Pc.registered, count_nil]
      omega
    · rw [count_erase_of_ne hd, if_neg hd, if_neg hd]
      rfl
  fits := by
    intro d
    show (update s.pcs c .waitLock d).fits _
    by_cases hd : d = c
    · subst hd
      have hfits := h.fits d
      rw [h.suspended_of_pending hfree hmem] at hfits
      rw [update_self]
      show (s.mutex.pcs d).stage ≠ .unlocking
      rw [show (s.mutex.pcs d).stage = .outside from hfits]
      nofun
    · rw [update_of_ne hd]
      exact h.fits d
  threads := by
    refine threads_execute (t := { s with resumes := s.resumes.erase c }.goto c .waitLock)
      h hfree rfl fun d hd hrest => ?_
    have hpc : update s.pcs c .waitLock d = s.pcs d := update_of_ne hd ..
    exact (rests_congr (t := State.goto _ c _) hpc rfl).trans hrest

theorem step (h : s.Inv thread) {a : Action ι} (hs : s.step thread a = some t) :
    t.Inv thread := by
  cases step_of_step hs with
  | move hrun hm => exact h.move hrun hm
  | @mutex a m hrun hmay hm =>
    refine { h with
      mutex := h.mutex.step (wokenByPost_of_mayUse hmay) hm
      locking := ⟨h.locking.locked, h.locking.unique⟩
      fits := fits_mutex (s := s) hmay hm h.fits
      threads := fun d => ?_ }
    by_cases hd : d = a.coroutine
    · rw [hd]
      exact .inl hrun
    · exact (h.threads d).imp_right (rests_mutex hm hd)
  | mutexResume hfree hm =>
    exact { h with
      mutex := h.mutex.step rfl hm
      locking := ⟨h.locking.locked, h.locking.unique⟩
      fits := fits_mutex (s := s) rfl hm h.fits
      threads := h.threads_execute hfree rfl fun d hd => rests_mutex hm hd }
  | run hfree =>
    exact { h with
      locking := ⟨h.locking.locked, h.locking.unique⟩
      threads := h.threads_execute hfree rfl fun _ _ => id }
  | @yield c hrun hrests =>
    refine { h with
      locking := ⟨h.locking.locked, h.locking.unique⟩
      threads := fun d => ?_ }
    show update s.running (thread c) none (thread d) = some d ∨ s.rests d = true
    by_cases hd : d = c
    · subst hd
      exact .inr hrests
    · by_cases hthread : thread d = thread c
      · rcases h.threads d with hrun' | hrest
        · rw [hthread, hrun] at hrun'
          exact absurd (some.inj hrun').symm hd
        · exact .inr hrest
      · rw [update_of_ne hthread]
        exact h.threads d
  | resume hfree hmem ht =>
    rw [h.step_resume hfree hmem] at ht
    exact some.inj ht ▸ h.resume hfree hmem

theorem of_run {acts : List (Action ι)}
    (h : run (State.step thread) (State.init ι τ) acts = some s) : s.Inv thread :=
  run_invariant (fun _ _ _ ht hs => ht.step hs) init h

end State.Inv

end Cond
end Corpc.Lock
