/-
# Linearization points

A history of a concurrent object lists, in the order of time, the calls, the returns, and the moment
at which each operation takes effect.  The object is linearizable to a sequential specification if

* each thread's events are calls, effects and returns in turn, of one operation, and
* the effects, in the order of the history, are a run of the specification.
-/

import Corpc.Basis.Run
import Mathlib.Logic.Function.Basic

namespace Corpc.Basis

open Function Option

/-- An event of thread `t`: it calls an operation, the operation takes effect with a
result, it returns with one. -/
inductive Event (θ O R : Type*)
  | call (t : θ) (o : O)
  | effect (t : θ) (o : O) (r : R)
  | ret (t : θ) (r : R)
  deriving DecidableEq

inductive Phase (O R : Type*)
  | idle
  | called (o : O)
  | effected (r : R)
  deriving DecidableEq

variable {θ O R σ : Type*}

def Event.thread : Event θ O R → θ
  | .call t _ => t
  | .effect t _ _ => t
  | .ret t _ => t

def Event.effect? : Event θ O R → Option (O × R)
  | .call _ _ => none
  | .effect _ o r => some (o, r)
  | .ret _ _ => none

def effects (log : List (Event θ O R)) : List (O × R) := log.filterMap Event.effect?

theorem effects_append (log log' : List (Event θ O R)) :
    effects (log ++ log') = effects log ++ effects log' :=
  List.filterMap_append

theorem effects_cons_effect (t : θ) (o : O) (r : R) (log : List (Event θ O R)) :
    effects (.effect t o r :: log) = (o, r) :: effects log := rfl

theorem effects_concat (log : List (Event θ O R)) (e : Event θ O R) :
    effects (log ++ [e]) = effects log ++ e.effect?.toList := by
  rw [effects_append]
  cases h : e.effect? <;> simp [h, effects]

def Phase.next [DecidableEq O] [DecidableEq R] : Phase O R → Event θ O R → Option (Phase O R)
  | .idle, .call _ o => some (.called o)
  | .called o, .effect _ o' r => if o' = o then some (.effected r) else none
  | .effected r, .ret _ r' => if r' = r then some .idle else none
  | _, _ => none

/-- An event as thread `t` sees it. -/
def Phase.step [DecidableEq θ] [DecidableEq O] [DecidableEq R] (t : θ) (phase : Phase O R)
    (e : Event θ O R) : Option (Phase O R) :=
  if e.thread = t then phase.next e else some phase

section

variable [DecidableEq θ] [DecidableEq O] [DecidableEq R] {spec : σ → O × R → Option σ} {q₀ q q' : σ}
  {log : List (Event θ O R)} {phase : θ → Phase O R} {t : θ} {o : O} {r : R}

/-- **A history linearizes** to a run of `spec` that ends in `q`, with the threads in
the given phases at its end. -/
structure Linearizes (spec : σ → O × R → Option σ) (q₀ : σ) (log : List (Event θ O R)) (q : σ)
    (phase : θ → Phase O R) : Prop where
  effects : run spec q₀ (effects log) = some q
  threads : ∀ t, run (Phase.step t) .idle log = some (phase t)

theorem linearizes_nil (spec : σ → O × R → Option σ) (q₀ : σ) :
    Linearizes spec q₀ ([] : List (Event θ O R)) q₀ fun _ => .idle :=
  ⟨rfl, fun _ => rfl⟩

section

variable (h : Linearizes spec q₀ log q phase)
include h

theorem Linearizes.threads_append {e : Event θ O R}
    {next : Phase O R} (he : (phase e.thread).next e = some next) (u : θ) :
    run (Phase.step u) .idle (log ++ [e]) = some (update phase e.thread next u) := by
  rw [run_append, h.threads u, bind_some, run_cons, Phase.step.eq_def]
  by_cases hu : e.thread = u
  · subst hu
    rw [if_pos rfl, he, update_self]
    rfl
  · rw [if_neg hu, update_of_ne (Ne.symm hu)]
    rfl

theorem Linearizes.call (ht : phase t = .idle) (o : O) :
    Linearizes spec q₀ (log ++ [.call t o]) q (update phase t (.called o)) := by
  refine ⟨?_, h.threads_append (e := .call t o) (by simp [Event.thread, ht, Phase.next])⟩
  rw [effects_concat, Event.effect?, toList_none, List.append_nil]
  exact h.effects

theorem Linearizes.effect (ht : phase t = .called o) (hq : spec q (o, r) = some q') :
    Linearizes spec q₀ (log ++ [.effect t o r]) q' (update phase t (.effected r)) := by
  refine ⟨?_, h.threads_append (e := .effect t o r) (by simp [Event.thread, ht, Phase.next])⟩
  rw [effects_concat, run_append, h.effects, bind_some, Event.effect?, toList_some, run_cons, hq]
  rfl

theorem Linearizes.ret (ht : phase t = .effected r) :
    Linearizes spec q₀ (log ++ [.ret t r]) q (update phase t .idle) := by
  refine ⟨?_, h.threads_append (e := .ret t r) (by simp [Event.thread, ht, Phase.next])⟩
  rw [effects_concat, Event.effect?, toList_none, List.append_nil]
  exact h.effects

end

section Places

variable {β : Type*} {places : θ → β} {phaseAt : θ → β → Phase O R} {b : β}

theorem Linearizes.of_update (h : Linearizes spec q₀ log q
      (update (fun u => phaseAt u (places u)) t (phaseAt t b))) :
    Linearizes spec q₀ log q fun u => phaseAt u (update places t b u) := by
  have hphase : (fun u => phaseAt u (update places t b u)) =
      update (fun u => phaseAt u (places u)) t (phaseAt t b) :=
    funext fun u => Function.apply_update phaseAt places t b u
  rw [hphase]
  exact h

theorem Linearizes.silent (h : Linearizes spec q₀ log q fun u => phaseAt u (places u))
    (hb : phaseAt t b = phaseAt t (places t)) :
    Linearizes spec q₀ log q fun u => phaseAt u (update places t b u) := by
  refine .of_update ?_
  rw [hb, update_eq_self]
  exact h

end Places

end

end Corpc.Basis
