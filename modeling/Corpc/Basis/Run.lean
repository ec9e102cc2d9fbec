/-
# Runs of a transition system

A system of routines that share memory is a function `step : σ → α → Option σ`: the state after an
action, or `none` where it is not enabled.
-/

import Mathlib.Data.List.Basic
import Mathlib.Data.List.Induction

namespace Corpc.Basis

open List Option

variable {σ α : Type*}

/-- The state after the actions of a list, `none` from the first one on that is
not enabled. -/
def run (step : σ → α → Option σ) : σ → List α → Option σ
  | s, [] => some s
  | s, a :: as => (step s a).bind (run step · as)

/-- `step` with the actions that do not meet `ok` switched off. -/
def restrict (ok : σ → α → Bool) (step : σ → α → Option σ) (s : σ) (a : α) : Option σ :=
  if ok s a then step s a else none

variable {step : σ → α → Option σ} {s s' : σ} {as bs : List α}

@[simp]
theorem run_nil : run step s [] = some s := rfl

theorem run_cons (a : α) : run step s (a :: as) = (step s a).bind (run step · as) := rfl

theorem run_append : run step s (as ++ bs) = (run step s as).bind (run step · bs) := by
  induction as generalizing s with
  | nil => rfl
  | cons a as ih =>
    rw [cons_append, run_cons, run_cons, bind_assoc]
    exact congrArg _ (funext fun t => ih)

variable {ok : σ → α → Bool}

theorem restrict_eq_some {a : α} :
    restrict ok step s a = some s' ↔ ok s a = true ∧ step s a = some s' := by
  unfold restrict
  split_ifs with h <;> simp [h]

variable {I : σ → Prop}

/-- **The invariant rule.**  What every enabled action keeps, every run keeps. -/
theorem run_invariant (hstep : ∀ s a s', I s → step s a = some s' → I s')
    (h0 : I s) (h : run step s as = some s') : I s' := by
  induction as generalizing s with
  | nil => exact some.inj h ▸ h0
  | cons a as ih =>
    rw [run_cons] at h
    obtain ⟨t, ht, hrest⟩ := bind_eq_some_iff.1 h
    exact ih (hstep s a t h0 ht) hrest

/-- **The invariant rule with a history.**  The invariant may speak of the actions taken so far. -/
theorem run_history {I : List α → σ → Prop}
    (hstep : ∀ pre a t t', pre ++ [a] <+: as → run step s pre = some t → I pre t →
      step t a = some t' → I (pre ++ [a]) t')
    (h0 : I [] s) (h : run step s as = some s') : I as s' := by
  induction as using List.reverseRecOn generalizing s' with
  | nil => exact some.inj h ▸ h0
  | append_singleton as a ih =>
    rw [run_append] at h
    obtain ⟨t, ht, hlast⟩ := bind_eq_some_iff.1 h
    have hpre : I as t := ih (fun pre b t t' hp => hstep pre b t t' (hp.trans
      (prefix_append as [a]))) ht
    rw [run_cons] at hlast
    obtain ⟨t', ht', hnil⟩ := bind_eq_some_iff.1 hlast
    obtain rfl := some.inj hnil
    exact hstep as a t t' prefix_rfl ht hpre ht'

theorem run_restrict_invariant (hstep : ∀ s a s', I s → ok s a = true → step s a = some s' → I s')
    (h0 : I s) (h : run (restrict ok step) s as = some s') : I s' :=
  run_invariant (fun s a s' hI hs => hstep s a s' hI (restrict_eq_some.1 hs).1
    (restrict_eq_some.1 hs).2) h0 h

theorem run_restrict (hok : ∀ a ∈ as, ∀ s, ok s a = true) :
    run (restrict ok step) s as = run step s as := by
  induction as generalizing s with
  | nil => rfl
  | cons a as ih =>
    have ha : restrict ok step s a = step s a := if_pos (hok a (by simp) s)
    rw [run_cons, run_cons, ha]
    exact congrArg _ (funext fun t => ih fun b hb => hok b (mem_cons_of_mem a hb))

theorem run_map {f : σ → σ} (hstep : ∀ s a s', I s → step s a = some s' → I s')
    (hf : ∀ s a, I s → step (f s) a = (step s a).map f) (h0 : I s) :
    run step (f s) as = (run step s as).map f := by
  induction as generalizing s with
  | nil => rfl
  | cons a as ih =>
    rw [run_cons, run_cons, hf s a h0]
    cases hs : step s a with
    | none => rfl
    | some t => exact ih (hstep s a t h0 hs)

variable {P : σ → Prop}

theorem exists_step_of_run (h0 : ¬P s) (h : run step s as = some s') (h' : P s') :
    ∃ pre a post t t', as = pre ++ a :: post ∧ run step s pre = some t ∧ step t a = some t' ∧
      ¬P t ∧ P t' := by
  induction as generalizing s with
  | nil =>
    cases h
    exact absurd h' h0
  | cons a as ih =>
    rw [run_cons] at h
    obtain ⟨t, ht, hrest⟩ := bind_eq_some_iff.1 h
    by_cases hP : P t
    · exact ⟨[], a, as, s, t, rfl, rfl, ht, h0, hP⟩
    · obtain ⟨pre, b, post, u, u', rfl, hpre, hu, hnot, hP'⟩ := ih hP hrest
      refine ⟨a :: pre, b, post, u, u', rfl, ?_, hu, hnot, hP'⟩
      rw [run_cons, ht]
      exact hpre

theorem exists_of_run_map {p : σ → Bool} (h : (run step s as).map p = some true) :
    ∃ s', run step s as = some s' ∧ p s' = true :=
  map_eq_some_iff.1 h

theorem exists_run_of_decide [DecidablePred P]
    (h : (run step s as).map (fun s' => decide (P s')) = some true) :
    ∃ s', run step s as = some s' ∧ P s' := by
  obtain ⟨s', hs, hp⟩ := exists_of_run_map h
  exact ⟨s', hs, of_decide_eq_true hp⟩

theorem exists_run_of_imp {Q : σ → Prop} [DecidablePred P]
    (h : (run step s as).map (fun s' => decide (P s')) = some true)
    (hq : ∀ s', run step s as = some s' → P s' → Q s') : ∃ s', run step s as = some s' ∧ Q s' := by
  obtain ⟨s', hs, hp⟩ := exists_run_of_decide h
  exact ⟨s', hs, hq s' hs hp⟩

theorem exists_run_and {Q : σ → Prop} [DecidablePred P]
    (h : (run step s as).map (fun s' => decide (P s')) = some true)
    (hq : ∀ s', run step s as = some s' → P s' → Q s') :
    ∃ s', run step s as = some s' ∧ P s' ∧ Q s' :=
  exists_run_of_imp h fun s' hs hp => ⟨hp, hq s' hs hp⟩

end Corpc.Basis
