/-
# The semaphore conserves its permits

The invariant of `Sem.State.step`.  The history linearizes to the semaphore of
single steps.  At most one coroutine has `res_` locked, and `waitRoutines_` is empty when `res_`
is positive (`Locking`).
-/

import Corpc.Lock.Semaphore

namespace Corpc.Lock
namespace Sem

open Corpc.Basis Function List Option Pc Semaphore

variable {ι : Type} [DecidableEq ι]

/-- The history and the counts do not tell `pc'` from `pc`. -/
structure Pc.Same (c : ι) (pc pc' : Pc ι) : Prop where
  phase : pc'.phase c = pc.phase c
  call : pc'.call = pc.call
  registered : pc'.registered = pc.registered
  granted : pc'.granted = pc.granted
  posting : pc'.posting = pc.posting
  info : pc'.info = pc.info

inductive State.Move (s : State ι) (c : ι) : State ι → Prop
  | wait (hc : s.pcs c = .idle) : s.Move c ((s.goto c .waitLoad).record (.call c (.wait c)))
  | post (hc : s.pcs c = .idle) : s.Move c ((s.goto c .postLoad).record (.call c .post))
  /-- It reads `res_`, finds that it cannot go on, yields, or finds `waitRoutines_` empty. -/
  | quiet {pc' : Pc ι} (hsame : (s.pcs c).Same c pc') (hlocks : pc'.locks = (s.pcs c).locks)
      (hadd : pc' = .postAdd → s.waitRoutines = []) : s.Move c (s.goto c pc')
  | lock {pc' : Pc ι} (hsame : (s.pcs c).Same c pc') (hres : s.res = 0) (hadd : pc' ≠ .postAdd) :
      s.Move c ({ s with res := -1 }.goto c pc')
  | unlock {pc' : Pc ι} (hsame : (s.pcs c).Same c pc') (hlocks : (s.pcs c).locks = true)
      (hlocks' : pc'.locks = false) : s.Move c ({ s with res := 0 }.goto c pc')
  | acquire {v : ℤ} (hc : s.pcs c = .waitTry v) (hv : 0 < v) (hres : s.res = v) :
      s.Move c (({ s with res := v - 1 }.goto c (.returning (.waited true))).record
        (.effect c (.wait c) (.waited true)))
  | enqueue (hc : s.pcs c = .waitPush) :
      s.Move c (({ s with waitRoutines := s.waitRoutines ++ [c] }.goto c .waitStore).record
        (.effect c (.wait c) (.waited false)))
  | add {v : ℤ} (hc : s.pcs c = .postTry v) (hv : 0 < v) (hres : s.res = v) :
      s.Move c (({ s with res := v + 1 }.goto c (.returning (.posted none))).record
        (.effect c .post (.posted none)))
  | addLocked (hc : s.pcs c = .postAdd) :
      s.Move c (({ s with res := 1 }.goto c (.returning (.posted none))).record
        (.effect c .post (.posted none)))
  | take {d : ι} {rest : List ι} (hc : s.pcs c = .postLocked) (hq : s.waitRoutines = d :: rest) :
      s.Move c (({ s with waitRoutines := rest }.goto c (.postStore d)).record
        (.effect c .post (.posted (some d))))
  | notify {d : ι} (hc : s.pcs c = .postResume d) :
      s.Move c ({ s with resumes := s.resumes ++ [d] }.goto c (.returning (.posted (some d))))
  | wake (hc : s.pcs c = .suspended) (hmem : c ∈ s.resumes) :
      s.Move c ({ s with resumes := s.resumes.erase c }.goto c (.returning (.waited false)))
  | ret {r : Result ι} (hc : s.pcs c = .returning r) :
      s.Move c ((s.goto c .idle).record (.ret c r))

variable {s t : State ι} {c : ι}

theorem move_of_next {spurious : Bool} (hs : s.next c spurious = some t) : s.Move c t := by
  unfold State.next at hs
  cases hc : s.pcs c with
  | idle | suspended => simp only [hc] at hs; cases hs
  | waitLoad | yielding | postLoad =>
    simp only [hc] at hs
    cases hs
    exact .quiet (by rw [hc]; exact ⟨rfl, rfl, rfl, rfl, rfl, rfl⟩) (by rw [hc]; rfl) (by nofun)
  | waitTry v =>
    simp only [hc] at hs
    cases hs
    have hback : s.Move c (s.goto c .waitLoad) :=
      .quiet (by rw [hc]; exact ⟨rfl, rfl, rfl, rfl, rfl, rfl⟩) (by rw [hc]; rfl) (by nofun)
    split
    · rename_i hv
      split
      · rename_i hres
        exact .lock (by rw [hc]; exact ⟨rfl, rfl, rfl, rfl, rfl, rfl⟩) (hres.1.trans hv)
          (by nofun)
      · exact hback
    · split
      · rename_i hv
        split
        · rename_i hres
          exact .acquire hc hv hres.1
        · exact hback
      · exact hback
  | waitPush =>
    simp only [hc] at hs
    cases hs
    exact .enqueue hc
  | waitStore | postStore d =>
    simp only [hc] at hs
    cases hs
    exact .unlock (by rw [hc]; exact ⟨rfl, rfl, rfl, rfl, rfl, rfl⟩) (by rw [hc]; rfl) rfl
  | postTry v =>
    simp only [hc] at hs
    cases hs
    have hback : s.Move c (s.goto c .postLoad) :=
      .quiet (by rw [hc]; exact ⟨rfl, rfl, rfl, rfl, rfl, rfl⟩) (by rw [hc]; rfl) (by nofun)
    split
    · rename_i hv
      split
      · rename_i hres
        exact .lock (by rw [hc]; exact ⟨rfl, rfl, rfl, rfl, rfl, rfl⟩) (hres.1.trans hv)
          (by nofun)
      · exact hback
    · split
      · rename_i hv
        split
        · rename_i hres
          exact .add hc hv hres.1
        · exact hback
      · exact hback
  | postLocked =>
    simp only [hc] at hs
    cases hs
    split
    · rename_i hq
      exact .quiet (by rw [hc]; exact ⟨rfl, rfl, rfl, rfl, rfl, rfl⟩) (by rw [hc]; rfl)
        fun _ => hq
    · rename_i d rest hq
      exact .take hc hq
  | postAdd =>
    simp only [hc] at hs
    cases hs
    exact .addLocked hc
  | postResume d =>
    simp only [hc] at hs
    cases hs
    exact .notify hc
  | returning r =>
    simp only [hc] at hs
    cases hs
    exact .ret hc

theorem move_of_step {a : Action ι} (hs : s.step a = some t) : s.Move a.coroutine t := by
  cases a with
  | wait c =>
    obtain ⟨hc, rfl⟩ := ite_some_none_eq_some.1 hs
    exact .wait hc
  | post c =>
    obtain ⟨hc, rfl⟩ := ite_some_none_eq_some.1 hs
    exact .post hc
  | next c spurious => exact move_of_next hs
  | resume c =>
    obtain ⟨⟨hc, hmem⟩, rfl⟩ := ite_some_none_eq_some.1 hs
    exact .wake hc hmem

theorem State.Move.pcs_of_ne (hm : s.Move c t) {d : ι} (hd : d ≠ c) : t.pcs d = s.pcs d := by
  cases hm <;> exact update_of_ne hd ..

theorem State.Move.within (hm : s.Move c t) (hidle : s.pcs c ≠ .idle)
    (hreturning : ∀ r, s.pcs c ≠ .returning r) : (t.pcs c).call = (s.pcs c).call ∧
      completed t.log = completed s.log ∧ postCalls t.log = postCalls s.log := by
  have hself : ∀ (u : State ι) (pc : Pc ι), (u.goto c pc).pcs c = pc :=
    fun u pc => update_self ..
  have hcounts : ∀ {o : Op ι} {r : Result ι},
      completed (s.log ++ [.effect c o r]) = completed s.log ∧
        postCalls (s.log ++ [.effect c o r]) = postCalls s.log := by
    intro o r
    simp [completed, postCalls]
  cases hm with
  | wait hc | post hc => exact absurd hc hidle
  | quiet hsame | lock hsame
  | unlock hsame => exact ⟨(congrArg _ (hself ..)).trans hsame.call, rfl, rfl⟩
  | acquire hc | enqueue hc | add hc | addLocked hc
  | take hc => exact ⟨(congrArg _ (hself ..)).trans (by rw [hc]; rfl), hcounts⟩
  | notify hc | wake hc => exact ⟨(congrArg _ (hself ..)).trans (by rw [hc]; rfl), rfl, rfl⟩
  | ret hc => exact absurd hc (hreturning _)

section Spec

variable {m : Semaphore ι}

theorem spec_acquire (c : ι) (hm : m.res ≠ 0) :
    spec m (.wait c, .waited true) = some { m with res := m.res - 1 } := by
  rw [spec, wait, if_neg hm, if_pos rfl]

theorem spec_enqueue (c : ι) (hm : m.res = 0) :
    spec m (.wait c, .waited false) = some { m with waitRoutines := m.waitRoutines ++ [c] } := by
  rw [spec, wait, if_pos hm, if_pos rfl]

theorem spec_add (hm : m.res ≠ 0 ∨ m.waitRoutines = []) :
    spec m (.post, .posted none) = some { m with res := m.res + 1 } := by
  by_cases hres : m.res = 0
  · rw [spec, post, if_pos hres, hm.resolve_left (not_not.2 hres), hres]
    rfl
  · rw [spec, post, if_neg hres, if_pos rfl]

theorem spec_take {d : ι} {rest : List ι} (hm : m.res = 0) (hq : m.waitRoutines = d :: rest) :
    spec m (.post, .posted (some d)) = some { m with waitRoutines := rest } := by
  rw [spec, post, if_pos hm, hq]
  exact if_pos rfl

end Spec

def State.Linearized (num : ℕ) (s : State ι) : Prop :=
  Linearizes spec ⟨num, []⟩ s.log s.abs s.phase

section Linearized

variable {num : ℕ}

theorem linearized_of {pc : Pc ι} (ht : t.pcs = update s.pcs c pc)
    (h : Linearizes spec ⟨num, []⟩ t.log t.abs (update s.phase c (pc.phase c))) :
    t.Linearized num := by
  show Linearizes spec ⟨num, []⟩ t.log t.abs fun d => (t.pcs d).phase d
  rw [ht]
  exact h.of_update

theorem linearized_silent (h : s.Linearized num) {pc : Pc ι}
    (ht : t.pcs = update s.pcs c pc) (hphase : pc.phase c = (s.pcs c).phase c)
    (hlog : t.log = s.log) (habs : t.abs = s.abs) : t.Linearized num := by
  show Linearizes spec ⟨num, []⟩ t.log t.abs fun d => (t.pcs d).phase d
  rw [ht, hlog, habs]
  exact Linearizes.silent h hphase

theorem linearized_step (h : s.Linearized num) (hm : s.Move c t)
    (hlock : (s.pcs c).locks = true → s.res = -1)
    (hadds : s.pcs c = .postAdd → s.waitRoutines = []) : t.Linearized num := by
  have hlin : Linearizes spec ⟨num, []⟩ s.log s.abs s.phase := h
  -- while `res_` is locked no permit is free
  have hzero : (s.pcs c).locks = true → s.abs.res = 0 := by
    intro hl
    show s.res.toNat = 0
    rw [hlock hl]
    rfl
  cases hm with
  | wait hc => exact linearized_of rfl (hlin.call (by rw [State.phase, hc]; rfl) (.wait c))
  | post hc => exact linearized_of rfl (hlin.call (by rw [State.phase, hc]; rfl) .post)
  | quiet hsame => exact linearized_silent h rfl hsame.phase rfl rfl
  | lock hsame hres =>
    refine linearized_silent h rfl hsame.phase rfl ?_
    simp [State.abs, State.goto, hres]
  | unlock hsame hlocks =>
    refine linearized_silent h rfl hsame.phase rfl ?_
    show Semaphore.mk 0 s.waitRoutines = Semaphore.mk s.res.toNat s.waitRoutines
    rw [← hzero hlocks]
    rfl
  | acquire hc hv hres =>
    refine linearized_of rfl (hlin.effect (by rw [State.phase, hc]; rfl) ?_)
    rw [spec_acquire c (by show s.res.toNat ≠ 0; omega), ← hres]
    show some (Semaphore.mk (s.res.toNat - 1) _) = some (Semaphore.mk (s.res - 1).toNat _)
    rw [Int.pred_toNat]
    rfl
  | enqueue hc =>
    refine linearized_of rfl (hlin.effect (by rw [State.phase, hc]; rfl) ?_)
    exact spec_enqueue c (hzero (by rw [hc]; rfl))
  | add hc hv hres =>
    refine linearized_of rfl (hlin.effect (by rw [State.phase, hc]; rfl) ?_)
    rw [spec_add (.inl (by show s.res.toNat ≠ 0; omega)), ← hres]
    show some (Semaphore.mk (s.res.toNat + 1) _) = some (Semaphore.mk (s.res + 1).toNat _)
    have hsucc : (s.res + 1).toNat = s.res.toNat + 1 := by omega
    rw [hsucc]
    rfl
  | addLocked hc =>
    refine linearized_of rfl (hlin.effect (by rw [State.phase, hc]; rfl) ?_)
    rw [spec_add (.inr (hadds hc)), hzero (by rw [hc]; rfl)]
    rfl
  | take hc hq =>
    refine linearized_of rfl (hlin.effect (by rw [State.phase, hc]; rfl) ?_)
    exact spec_take (hzero (by rw [hc]; rfl)) hq
  | notify hc | wake hc => exact linearized_silent h rfl (by rw [hc]; rfl) rfl rfl
  | ret hc => exact linearized_of rfl (hlin.ret (by rw [State.phase, hc]; rfl))

end Linearized

/-- At most one coroutine has `res_` locked, and `waitRoutines_` is empty when permits are free or
about to be. -/
structure State.Locking (s : State ι) : Prop where
  locked : ∀ {c}, (s.pcs c).locks = true → s.res = -1
  unique : ∀ {c d}, (s.pcs c).locks = true → (s.pcs d).locks = true → d = c
  empty : 0 < s.res → s.waitRoutines = []
  adds : ∀ {c}, s.pcs c = .postAdd → s.waitRoutines = []

namespace State.Locking

/-- No other coroutine than `c` has `res_` locked. -/
def Alone (s : State ι) (c : ι) : Prop := ∀ d, d ≠ c → (s.pcs d).locks = false

omit [DecidableEq ι] in
theorem exclusive (h : s.Locking) : Exclusive Pc.locks s.pcs (s.res = -1) := ⟨h.locked, h.unique⟩

omit [DecidableEq ι] in
theorem alone_of_locks (h : s.Locking) (hc : (s.pcs c).locks = true) : Alone s c :=
  h.exclusive.alone_of_locks hc

omit [DecidableEq ι] in
theorem alone_of_res (h : s.Locking) (hres : s.res ≠ -1) : Alone s c :=
  h.exclusive.alone_of_free hres

/-- **A coroutine goes on.**  It locks `res_`, or changes it or the list, only while no other
coroutine has it locked. -/
theorem goto (h : s.Locking) {pc : Pc ι} (ht : t.pcs = update s.pcs c pc)
    (hlocks : pc.locks = true → t.res = -1 ∧ Alone s c)
    (hres : t.res = s.res ∧ t.waitRoutines = s.waitRoutines ∨ Alone s c)
    (hempty : 0 < t.res → t.waitRoutines = []) (hadds : pc = .postAdd → t.waitRoutines = []) :
    t.Locking := by
  have hexclusive : Exclusive locks t.pcs (t.res = -1) := by
    rw [ht]
    exact h.exclusive.update hlocks (hres.imp_left fun hsame => hsame.1.trans)
  refine ⟨hexclusive.taken, hexclusive.unique, hempty, fun {d} hd => ?_⟩
  rw [ht] at hd
  by_cases hdc : d = c
  · rw [hdc, update_self] at hd
    exact hadds hd
  · rw [update_of_ne hdc] at hd
    rcases hres with ⟨-, hlist⟩ | halone
    · rw [hlist]
      exact h.adds hd
    · have hl := halone d hdc
      rw [hd] at hl
      cases hl

theorem step (h : s.Locking) (hm : s.Move c t) : t.Locking := by
  cases hm with
  | wait hc | post hc | notify hc | wake hc
  | ret hc => exact h.goto rfl (by nofun) (.inl ⟨rfl, rfl⟩) h.empty (by nofun)
  | quiet hsame hlocks hadd =>
    refine h.goto rfl (fun hl => ?_) (.inl ⟨rfl, rfl⟩) h.empty hadd
    rw [hlocks] at hl
    exact ⟨h.locked hl, h.alone_of_locks hl⟩
  | lock hsame hres hadd =>
    have halone : Alone s c := h.alone_of_res (by omega)
    exact h.goto rfl (fun _ => ⟨rfl, halone⟩) (.inr halone) (by nofun) fun hp => absurd hp hadd
  | unlock hsame hlocks hlocks' =>
    refine h.goto rfl (fun hl => ?_) (.inr (h.alone_of_locks hlocks)) (by nofun) ?_
    · rw [hlocks'] at hl
      cases hl
    · rintro rfl
      cases hlocks'
  | acquire hc hv hres | add hc hv hres =>
    exact h.goto rfl (by nofun) (.inr (h.alone_of_res (by omega)))
      (fun _ => h.empty (by omega)) (by nofun)
  | enqueue hc | take hc hq =>
    have hl : (s.pcs c).locks = true := by rw [hc]; rfl
    refine h.goto rfl (fun _ => ⟨h.locked hl, h.alone_of_locks hl⟩)
      (.inr (h.alone_of_locks hl)) (fun hpos => ?_) (by nofun)
    have hpos : 0 < s.res := hpos
    have hres := h.locked hl
    omega
  | addLocked hc =>
    have hl : (s.pcs c).locks = true := by rw [hc]; rfl
    exact h.goto rfl (by nofun) (.inr (h.alone_of_locks hl)) (fun _ => h.adds hc) (by nofun)

end State.Locking

variable [Fintype ι]

/-- A `post` has coroutine `d` in its hands. -/
def Pc.hands (d : ι) (pc : Pc ι) : ℕ := if pc.info = some d then 1 else 0

/-- **A coroutine that waits is in one place,** and no other coroutine is anywhere. -/
def State.Placed (s : State ι) : Prop :=
  ∀ d, s.waitRoutines.count d + tally (Pc.hands d) s.pcs + s.resumes.count d = (s.pcs d).registered

namespace State.Placed

theorem goto (h : s.Placed) {pc : Pc ι} (ht : t.pcs = update s.pcs c pc)
    (hd : ∀ d, t.waitRoutines.count d + t.resumes.count d + pc.hands d +
        (if d = c then (s.pcs c).registered else 0) =
      s.waitRoutines.count d + s.resumes.count d + (s.pcs c).hands d +
        (if d = c then pc.registered else 0)) : t.Placed := by
  have hlisted : ∀ d, s.waitRoutines.count d + s.resumes.count d + tally (hands d) s.pcs =
      (s.pcs d).registered := by
    intro d
    have hbefore := h d
    omega
  intro d
  have hafter := listed_update hlisted hd d
  rw [ht]
  omega

theorem goto_same (h : s.Placed) {pc : Pc ι} (ht : t.pcs = update s.pcs c pc)
    (hlist : t.waitRoutines = s.waitRoutines) (hresumes : t.resumes = s.resumes)
    (hinfo : pc.info = (s.pcs c).info) (hregistered : pc.registered = (s.pcs c).registered) :
    t.Placed := by
  refine h.goto ht fun d => ?_
  rw [hlist, hresumes, hregistered, hands, hands, hinfo]

theorem step (h : s.Placed) (hm : s.Move c t) : t.Placed := by
  cases hm with
  | wait hc | post hc | acquire hc | add hc | addLocked hc
  | ret hc => exact h.goto_same rfl rfl rfl (by rw [hc]; rfl) (by rw [hc]; rfl)
  | quiet hsame | lock hsame
  | unlock hsame => exact h.goto_same rfl rfl rfl hsame.info hsame.registered
  | enqueue hc =>
    refine h.goto rfl fun d => ?_
    show (s.waitRoutines ++ [c]).count d + s.resumes.count d + _ + _ = _
    rw [hc, count_append, count_singleton]
    simp only [hands, info, registered, beq_iff_eq, eq_comm (a := c), reduceCtorEq,
      if_false, ite_self]
    omega
  | @take e rest hc hq =>
    -- the first of the queue comes into the hands of this `post`
    refine h.goto rfl fun d => ?_
    show rest.count d + s.resumes.count d + _ + _ = _
    rw [hc, hq, count_cons]
    simp only [hands, info, registered, beq_iff_eq, some.injEq, reduceCtorEq, if_false, ite_self]
    omega
  | @notify e hc =>
    refine h.goto rfl fun d => ?_
    show s.waitRoutines.count d + (s.resumes ++ [e]).count d + _ + _ = _
    rw [hc, count_append, count_singleton]
    simp only [hands, info, registered, beq_iff_eq, some.injEq, reduceCtorEq, if_false, ite_self]
    omega
  | wake hc hmem =>
    refine h.goto rfl fun d => ?_
    show s.waitRoutines.count d + (s.resumes.erase c).count d + _ + _ = _
    rw [hc, count_erase]
    simp only [hands, info, registered, beq_iff_eq, reduceCtorEq, if_false, ite_self]
    by_cases hd : d = c
    · subst hd
      have hpos := count_pos_iff.2 hmem
      rw [if_pos rfl]
      omega
    · rw [if_neg hd, if_neg (Ne.symm hd)]
      omega

end State.Placed

/-- **The balance of the permits**: each is free, or given to a coroutine that waits and has left
the queue, is at the end of `wait`, or has returned. -/
structure State.Balanced (num : ℕ) (s : State ι) : Prop where
  permits : completed s.log + tally Pc.granted s.pcs + tally Pc.registered s.pcs + s.res.toNat =
    num + posts s.log + s.waitRoutines.length
  calls : postCalls s.log = posts s.log + tally Pc.posting s.pcs

namespace State.Balanced

variable {num : ℕ}

theorem goto (h : s.Balanced num) {pc pc' : Pc ι} (hc : s.pcs c = pc)
    (ht : t.pcs = update s.pcs c pc')
    (hpermits : completed t.log + pc'.granted + pc'.registered + t.res.toNat + posts s.log +
        s.waitRoutines.length =
      completed s.log + pc.granted + pc.registered + s.res.toNat + posts t.log +
        t.waitRoutines.length) (hcalls : postCalls t.log + posts s.log + pc.posting =
      postCalls s.log + posts t.log + pc'.posting) : t.Balanced num := by
  have hgranted := tally_update granted s.pcs c pc'
  have hregistered := tally_update registered s.pcs c pc'
  have hposting := tally_update posting s.pcs c pc'
  have hbefore := h.permits
  have hbefore' := h.calls
  rw [hc] at hgranted hregistered hposting
  refine ⟨?_, ?_⟩
  · rw [ht]
    omega
  · rw [ht]
    omega

theorem goto_same (h : s.Balanced num) {pc : Pc ι} (hsame : (s.pcs c).Same c pc)
    (ht : t.pcs = update s.pcs c pc) (hlog : t.log = s.log)
    (hlist : t.waitRoutines = s.waitRoutines) (hres : t.res.toNat = s.res.toNat) :
    t.Balanced num := by
  refine h.goto rfl ht ?_ ?_
  · rw [hlog, hlist, hres, hsame.granted, hsame.registered]
  · rw [hlog, hsame.posting]

theorem step (h : s.Balanced num) (hlocking : s.Locking) (hm : s.Move c t) : t.Balanced num := by
  -- while `res_` is locked no permit is free
  have hzero : (s.pcs c).locks = true → s.res.toNat = 0 := by
    intro hl
    rw [hlocking.locked hl]
    rfl
  cases hm with
  | wait hc =>
    refine h.goto hc rfl ?_ ?_
    · simp [State.record, State.goto, completed, posts, Pc.granted, Pc.registered]
    · simp [State.record, State.goto, posts, postCalls, Pc.posting]
  | post hc =>
    refine h.goto hc rfl ?_ ?_
    · simp [State.record, State.goto, completed, posts, Pc.granted, Pc.registered]
    · simp [State.record, State.goto, posts, postCalls, Pc.posting]
      omega
  | quiet hsame => exact h.goto_same hsame rfl rfl rfl rfl
  | lock hsame hres => exact h.goto_same hsame rfl rfl rfl (by rw [hres]; rfl)
  | unlock hsame hlocks => exact h.goto_same hsame rfl rfl rfl (hzero hlocks).symm
  | acquire hc hv hres | enqueue hc =>
    refine h.goto hc rfl ?_ ?_
    · simp [State.record, State.goto, completed, posts, Pc.granted, Pc.registered]
      omega
    · simp [State.record, State.goto, posts, postCalls, Pc.posting]
  | add hc hv hres =>
    refine h.goto hc rfl ?_ ?_
    · simp [State.record, State.goto, completed, posts, Pc.granted, Pc.registered]
      omega
    · simp [State.record, State.goto, posts, postCalls, Pc.posting]
      omega
  | addLocked hc =>
    have hres := hzero (by rw [hc]; rfl)
    refine h.goto hc rfl ?_ ?_
    · simp [State.record, State.goto, completed, posts, Pc.granted, Pc.registered, hres]
      omega
    · simp [State.record, State.goto, posts, postCalls, Pc.posting]
      omega
  | take hc hq =>
    refine h.goto hc rfl ?_ ?_
    · simp [State.record, State.goto, completed, posts, Pc.granted, Pc.registered, hq]
      omega
    · simp [State.record, State.goto, posts, postCalls, Pc.posting]
      omega
  | notify hc => exact h.goto hc rfl rfl rfl
  | wake hc =>
    refine h.goto hc rfl ?_ rfl
    simp [State.goto, Pc.granted, Pc.registered]
  | @ret r hc =>
    refine h.goto hc rfl ?_ ?_
    · cases r <;>
        simp [State.record, State.goto, completed, posts, Pc.granted, Pc.registered]
    · cases r <;> simp [State.record, State.goto, posts, postCalls, Pc.posting]

end State.Balanced

structure State.Inv (num : ℕ) (s : State ι) : Prop where
  linearized : s.Linearized num
  locking : s.Locking
  placed : s.Placed
  balanced : s.Balanced num

namespace State.Inv

variable {num : ℕ}

theorem init (num : ℕ) : (State.init ι num).Inv num where
  linearized := linearizes_nil _ _
  locking := ⟨by nofun, by nofun, fun _ => rfl, by nofun⟩
  placed := by
    intro d
    show 0 + tally (hands d) (fun _ : ι => idle) + 0 = 0
    rw [tally_const (f := hands d) (b := .idle) rfl]
  balanced := by
    have hzero : ∀ f : Pc ι → ℕ, f .idle = 0 → tally f (State.init ι num).pcs = 0 :=
      fun f hf => tally_const hf
    constructor
    · rw [hzero _ rfl, hzero _ rfl]
      simp [State.init, completed, posts]
    · rw [hzero _ rfl]
      rfl

theorem move (h : s.Inv num) (hm : s.Move c t) : t.Inv num where
  linearized := linearized_step h.linearized hm h.locking.locked h.locking.adds
  locking := h.locking.step hm
  placed := h.placed.step hm
  balanced := h.balanced.step h.locking hm

theorem step (h : s.Inv num) {a : Action ι} (hs : s.step a = some t) : t.Inv num :=
  h.move (move_of_step hs)

/-- **The permits are conserved.** -/
theorem completed_le (h : s.Inv num) : completed s.log + s.res.toNat ≤ num + posts s.log := by
  have hpermits := h.balanced.permits
  have hlength : s.waitRoutines.length ≤ tally registered s.pcs := by
    refine length_le_tally fun d => ?_
    have hplaced := h.placed d
    omega
  omega

end State.Inv

omit [Fintype ι] in
theorem step_of_not_locks {a : Action ι} (ha : (s.pcs a.coroutine).locks = false) (l : List ι) :
    { s with waitRoutines := l }.step a = (s.step a).map fun t => { t with waitRoutines := l } := by
  cases a with
  | wait c | post c | resume c =>
    simp only [State.step]
    split_ifs <;> rfl
  | next c spurious =>
    have ha : (s.pcs c).locks = false := ha
    show { s with waitRoutines := l }.next c spurious = (s.next c spurious).map _
    unfold State.next
    cases hc : s.pcs c with
    | waitTry v | postTry v =>
      dsimp only
      split_ifs <;> rfl
    | waitPush | waitStore | postLocked | postAdd | postStore d => rw [hc] at ha; cases ha
    | _ => rfl

/-- **What the semaphore is for.** -/
structure State.Conserves (num : ℕ) (s : State ι) : Prop where
  /-- A coroutine that has exchanged `res_` for -1 is the only one that has. -/
  exclusive : ∀ c, (s.pcs c).locks = true → s.res = -1 ∧ ∀ d, (s.pcs d).locks = true → d = c
  /-- Nobody else touches `waitRoutines_`. -/
  untouched : ∀ a : Action ι, (s.pcs a.coroutine).locks = false → ∀ l,
    { s with waitRoutines := l }.step a = (s.step a).map fun t => { t with waitRoutines := l }
  /-- The permits returned and free were there or posted.  So `res_` does not overflow as long as
  these are fewer than 2 ^ 31. -/
  permits : completed s.log + s.res.toNat ≤ num + posts s.log
  empty : 0 < s.res → s.waitRoutines = []
  /-- Each `post` takes effect once, and adds a permit or takes the first of the queue. -/
  history : Linearizes spec ⟨num, []⟩ s.log s.abs s.phase
  /-- A coroutine that was taken is resumed once, and its `wait` is what that ends. -/
  places : ∀ d, s.waitRoutines.count d + tally (Pc.hands d) s.pcs + s.resumes.count d =
    (s.pcs d).registered

theorem conserves_of_run {num : ℕ} {acts : List (Action ι)}
    (h : run State.step (State.init ι num) acts = some s) : s.Conserves num := by
  have hinv : s.Inv num := run_invariant (fun _ _ _ hI hs => hI.step hs) (State.Inv.init num) h
  exact {
    exclusive := fun c hc => ⟨hinv.locking.locked hc, fun d hd => hinv.locking.unique hc hd⟩
    untouched := fun a ha l => step_of_not_locks ha l
    permits := hinv.completed_le
    empty := hinv.locking.empty
    history := hinv.linearized
    places := hinv.placed }

end Sem
end Corpc.Lock
