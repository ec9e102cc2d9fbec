/-
# Consumers that can stop

A consumer takes its input piece by piece and can stop for good, with a reason.  `feed step s as` is
the consumer after the pieces of a list, `loop step n s` a routine after at most `n` of its own
steps.
-/

import Mathlib.Data.List.Basic

namespace Corpc.Basis

variable {α ρ σ τ : Type*}

inductive Flow (ρ σ : Type*)
  | more (s : σ)
  | stop (r : ρ) (s : σ)

def Flow.state : Flow ρ σ → σ
  | .more s => s
  | .stop _ s => s

def Flow.reason : Flow ρ σ → Option ρ
  | .more _ => none
  | .stop r _ => some r

/-- `I` holds of the state of a consumer that goes on, `J` of one that stopped. -/
def Flow.All (I : σ → Prop) (J : ρ → σ → Prop) : Flow ρ σ → Prop
  | .more s => I s
  | .stop r s => J r s

variable {x : Flow ρ σ} {I : σ → Prop} {J : ρ → σ → Prop}

theorem Flow.All.imp {I' : σ → Prop} {J' : ρ → σ → Prop} (h : x.All I J)
    (hI : ∀ s, I s → I' s) (hJ : ∀ r s, J r s → J' r s) : x.All I' J' := by
  cases x with
  | more s => exact hI s h
  | stop r s => exact hJ r s h

def Flow.bind (x : Flow ρ σ) (f : σ → Flow ρ σ) : Flow ρ σ :=
  match x with
  | .more s => f s
  | .stop r s => .stop r s

def feed (step : σ → α → Flow ρ σ) (s : σ) : List α → Flow ρ σ
  | [] => .more s
  | a :: as => (step s a).bind (feed step · as)

/-- A routine after at most `n` steps. -/
def loop (step : σ → Flow ρ σ) : ℕ → σ → Flow ρ σ
  | 0, s => .more s
  | n + 1, s => (step s).bind (loop step n)

@[simp]
theorem Flow.more_bind (s : σ) (f : σ → Flow ρ σ) : (Flow.more s).bind f = f s := rfl

@[simp]
theorem Flow.stop_bind (r : ρ) (s : σ) (f : σ → Flow ρ σ) :
    (Flow.stop r s).bind f = .stop r s := rfl

theorem Flow.bind_assoc (x : Flow ρ σ) (f g : σ → Flow ρ σ) :
    (x.bind f).bind g = x.bind fun s => (f s).bind g := by
  cases x <;> rfl

@[simp]
theorem Flow.bind_more (x : Flow ρ σ) : x.bind .more = x := by
  cases x <;> rfl

variable {s : σ}

theorem Flow.bind_eq_more {f : σ → Flow ρ σ} :
    x.bind f = .more s ↔ ∃ t, x = .more t ∧ f t = .more s := by
  cases x <;> simp

variable (step : σ → α → Flow ρ σ)

@[simp]
theorem feed_nil (s : σ) : feed step s [] = .more s := rfl

@[simp]
theorem feed_cons (s : σ) (a : α) (as : List α) :
    feed step s (a :: as) = (step s a).bind (feed step · as) := rfl

theorem feed_append (s : σ) (as bs : List α) :
    feed step s (as ++ bs) = (feed step s as).bind (feed step · bs) := by
  induction as generalizing s with
  | nil => rfl
  | cons a as ih =>
    rw [List.cons_append, feed_cons, feed_cons, Flow.bind_assoc]
    exact congrArg _ (funext ih)

theorem feed_reason {step : σ → α → Flow ρ σ} {P : ρ → Prop}
    (h : ∀ s a, ∀ r ∈ (step s a).reason, P r) (s : σ) (as : List α) :
    ∀ r ∈ (feed step s as).reason, P r := by
  induction as generalizing s with
  | nil => exact fun r hr => by simp [Flow.reason] at hr
  | cons a as ih =>
    have ha := h s a
    rw [feed_cons]
    cases hs : step s a with
    | more s' => exact ih s'
    | stop r s' =>
      rw [hs] at ha
      exact ha

theorem feed_all {step : σ → α → Flow ρ σ} {as : List α}
    (hstep : ∀ a ∈ as, ∀ s, I s → (step s a).All I J) (h0 : I s) :
    (feed step s as).All I J := by
  induction as generalizing s with
  | nil => exact h0
  | cons a as ih =>
    have h1 := hstep a List.mem_cons_self s h0
    rw [feed_cons]
    cases hs : step s a with
    | more s₁ =>
      rw [hs] at h1
      exact ih (fun b hb => hstep b (List.mem_cons_of_mem a hb)) h1
    | stop r₁ s₁ =>
      rw [hs] at h1
      exact h1

@[simp]
theorem loop_zero (step : σ → Flow ρ σ) (s : σ) : loop step 0 s = .more s := rfl

theorem loop_succ (step : σ → Flow ρ σ) (n : ℕ) (s : σ) :
    loop step (n + 1) s = (step s).bind (loop step n) := rfl

theorem loop_add (step : σ → Flow ρ σ) (m n : ℕ) (s : σ) :
    loop step (m + n) s = (loop step m s).bind (loop step n) := by
  induction m generalizing s with
  | zero => rw [Nat.zero_add, loop_zero, Flow.more_bind]
  | succ m ih =>
    rw [Nat.succ_add, loop_succ, loop_succ, Flow.bind_assoc]
    exact congrArg _ (funext ih)

theorem loop_all {step : σ → Flow ρ σ} (hstep : ∀ s, I s → (step s).All I J) (h0 : I s) (n : ℕ) :
    (loop step n s).All I J := by
  induction n generalizing s with
  | zero => exact h0
  | succ n ih =>
    have h1 := hstep s h0
    rw [loop_succ]
    cases hs : step s with
    | more s₁ =>
      rw [hs] at h1
      exact ih h1
    | stop r₁ s₁ =>
      rw [hs] at h1
      exact h1

/-- Two consumers go on together in states related by `R`, or have stopped for one
reason in states related by `S`. -/
inductive Flow.Rel (R S : σ → τ → Prop) : Flow ρ σ → Flow ρ τ → Prop
  | more {s : σ} {t : τ} (h : R s t) : Rel R S (.more s) (.more t)
  | stop {r : ρ} {s : σ} {t : τ} (h : S s t) : Rel R S (.stop r s) (.stop r t)

variable {R S : σ → τ → Prop} {y : Flow ρ τ}

theorem Flow.Rel.bind {f : σ → Flow ρ σ} {g : τ → Flow ρ τ} (h : Flow.Rel R S x y)
    (hfg : ∀ s t, R s t → Flow.Rel R S (f s) (g t)) : Flow.Rel R S (x.bind f) (y.bind g) := by
  cases h with
  | more h => exact hfg _ _ h
  | stop h => exact .stop h

theorem Flow.Rel.reason (h : Flow.Rel R S x y) : x.reason = y.reason := by
  cases h <;> rfl

theorem Flow.Rel.view {γ : Type*} {f : σ → γ}
    {g : τ → γ} (h : Flow.Rel R S x y) (hR : ∀ s t, R s t → f s = g t)
    (hS : ∀ s t, S s t → f s = g t) : (x.reason, f x.state) = (y.reason, g y.state) := by
  cases h with
  | more h => exact congrArg _ (hR _ _ h)
  | stop h => exact congrArg _ (hS _ _ h)

theorem Flow.Rel.all (h : Flow.Rel R S x y) {I' : τ → Prop} {J' : ρ → τ → Prop} (hy : y.All I' J')
    (hI : ∀ s t, R s t → I' t → I s) (hJ : ∀ r s t, S s t → J' r t → J r s) : x.All I J := by
  cases h with
  | more h => exact hI _ _ h hy
  | stop h => exact hJ _ _ _ h hy

/-- **Chunks do not matter.**  A consumer of chunks that agrees on each chunk with
a consumer of the items in it agrees with it on the whole list of chunks. -/
theorem feed_flatMap {β : Type*} {consume : σ → β → Flow ρ σ}
    {step : τ → α → Flow ρ τ} {items : β → List α} {chunks : List β}
    (h : ∀ chunk ∈ chunks, ∀ s t, R s t →
      Flow.Rel R S (consume s chunk) (feed step t (items chunk))) {t : τ} (hst : R s t) :
    Flow.Rel R S (feed consume s chunks) (feed step t (chunks.flatMap items)) := by
  induction chunks generalizing s t with
  | nil => exact .more hst
  | cons chunk chunks ih =>
    rw [feed_cons, List.flatMap_cons, feed_append]
    refine (h chunk (by simp) s t hst).bind fun s' t' hst' => ih (fun c hc => ?_) hst'
    exact h c (List.mem_cons_of_mem _ hc)

end Corpc.Basis
