/-
# Counting processes by what they do

A finite family of processes is a function `m : ι → β` to their states.  The number of those in a
state of some kind is a sum (`tally`) of weights, which a step of one process changes by the weights
of the states that it leaves and enters (`tally_update`).
-/

import Mathlib.Algebra.BigOperators.Group.Finset.Basic
import Mathlib.Algebra.Order.BigOperators.Group.Finset
import Mathlib.Data.Fintype.Basic

namespace Corpc.Basis

open Finset Function

variable {ι β : Type*} [Fintype ι]

def tally (f : β → ℕ) (m : ι → β) : ℕ := ∑ i, f (m i)

theorem le_tally (f : β → ℕ) (m : ι → β) (i : ι) : f (m i) ≤ tally f m :=
  single_le_sum (f := fun j => f (m j)) (fun _ _ => Nat.zero_le _) (mem_univ i)

variable {f : β → ℕ}

theorem tally_const {b : β} (hb : f b = 0) : tally f (fun _ : ι => b) = 0 :=
  sum_eq_zero fun _ _ => hb

theorem tally_eq_zero_iff {m : ι → β} : tally f m = 0 ↔ ∀ i, f (m i) = 0 := by
  simp [tally, sum_eq_zero_iff]

theorem tally_mono {g : β → ℕ} (h : ∀ b, f b ≤ g b) (m : ι → β) : tally f m ≤ tally g m :=
  sum_le_sum fun i _ => h (m i)

theorem tally_le_card (h : ∀ b, f b ≤ 1) (m : ι → β) :
    tally f m ≤ Fintype.card ι :=
  (sum_le_card_nsmul _ _ 1 fun i _ => h (m i)).trans_eq (by simp)

variable [DecidableEq ι]

theorem tally_update (f : β → ℕ) (m : ι → β) (i : ι) (b : β) :
    tally f (Function.update m i b) + f (m i) = tally f m + f b := by
  have hrest : ∑ j ∈ Finset.univ.erase i, f (Function.update m i b j) =
      ∑ j ∈ Finset.univ.erase i, f (m j) :=
    sum_congr rfl fun j hj => by rw [update_of_ne (ne_of_mem_erase hj)]
  unfold tally
  rw [← add_sum_erase _ _ (mem_univ i), hrest, update_self,
    ← add_sum_erase Finset.univ (fun j => f (m j)) (mem_univ i)]
  omega

theorem tally_update_update (f : β → ℕ) (m : ι → β) {i j : ι} (hij : j ≠ i) (b c : β) :
    tally f (Function.update (Function.update m i b) j c) + f (m i) + f (m j) =
      tally f m + f b + f c := by
  have hfirst := tally_update f m i b
  have hsecond := tally_update f (Function.update m i b) j c
  rw [update_of_ne hij] at hsecond
  omega

theorem add_le_tally (f : β → ℕ) (m : ι → β) {i j : ι} (hij : i ≠ j) :
    f (m i) + f (m j) ≤ tally f m := by
  unfold tally
  rw [← add_sum_erase Finset.univ (fun k => f (m k)) (mem_univ i)]
  refine Nat.add_le_add_left ?_ _
  exact single_le_sum (f := fun k => f (m k)) (fun _ _ => Nat.zero_le _)
    (mem_erase.2 ⟨hij.symm, mem_univ j⟩)

theorem length_le_tally {m : ι → β} {l : List ι} (h : ∀ i, l.count i ≤ f (m i)) :
    l.length ≤ tally f m := by
  calc
    l.length = ∑ i ∈ l.toFinset, l.count i := (List.sum_toFinset_count_eq_length l).symm
    _ ≤ ∑ i ∈ l.toFinset, f (m i) := sum_le_sum fun i _ => h i
    _ ≤ tally f m := sum_le_sum_of_subset (subset_univ _)

theorem eq_of_tally_le_one {m : ι → β} (h : tally f m ≤ 1) {i j : ι}
    (hi : 0 < f (m i)) (hj : 0 < f (m j)) : i = j := by
  by_contra hij
  have hle := add_le_tally f m hij
  omega

/-- **Each process is accounted for**: it is listed, or in the hands of processes, as often as its
state says. -/
theorem listed_update {hands : ι → β → ℕ} {weight : β → ℕ} {m : ι → β} {queued : ι → ℕ}
    (h : ∀ j, queued j + tally (hands j) m = weight (m j)) {i : ι} {b : β} {queued' : ι → ℕ}
    (hstep : ∀ j, queued' j + hands j b + (if j = i then weight (m i) else 0) =
      queued j + hands j (m i) + (if j = i then weight b else 0)) (j : ι) :
    queued' j + tally (hands j) (Function.update m i b) = weight (Function.update m i b j) := by
  have htally := tally_update (hands j) m i b
  have hbefore := h j
  have hchange := hstep j
  by_cases hji : j = i
  · subst hji
    rw [update_self]
    rw [if_pos rfl, if_pos rfl] at hchange
    omega
  · rw [update_of_ne hji]
    rw [if_neg hji, if_neg hji] at hchange
    omega

section Exclusive

variable {ι β : Type*} {locks : β → Bool} {m : ι → β} {taken taken' : Prop} {i : ι}

structure Exclusive (locks : β → Bool) (m : ι → β) (taken : Prop) : Prop where
  taken : ∀ {i}, locks (m i) = true → taken
  unique : ∀ {i j}, locks (m i) = true → locks (m j) = true → j = i

theorem Exclusive.alone_of_locks (h : Exclusive locks m taken) (hi : locks (m i) = true) :
    ∀ j, j ≠ i → locks (m j) = false := by
  intro j hj
  by_contra hne
  exact hj (h.unique hi (Bool.eq_true_of_not_eq_false hne))

theorem Exclusive.alone_of_free (h : Exclusive locks m taken) (hfree : ¬taken) :
    ∀ j, j ≠ i → locks (m j) = false := by
  intro j _
  by_contra hne
  exact hfree (h.taken (Bool.eq_true_of_not_eq_false hne))

/-- **A process takes a step.**  It gets the lock, or frees it, only while no other one has it. -/
theorem Exclusive.update [DecidableEq ι] (h : Exclusive locks m taken) {b : β}
    (hlocks : locks b = true → taken' ∧ ∀ j, j ≠ i → locks (m j) = false)
    (htaken : (taken → taken') ∨ ∀ j, j ≠ i → locks (m j) = false) :
    Exclusive locks (Function.update m i b) taken' := by
  refine ⟨fun {j} hj => ?_, fun {j k} hj hk => ?_⟩
  · by_cases hji : j = i
    · rw [hji, update_self] at hj
      exact (hlocks hj).1
    · rw [update_of_ne hji] at hj
      rcases htaken with htaken | halone
      · exact htaken (h.taken hj)
      · rw [halone j hji] at hj
        cases hj
  · by_cases hji : j = i <;> by_cases hki : k = i
    · rw [hji, hki]
    · rw [hji, update_self] at hj
      rw [update_of_ne hki, (hlocks hj).2 k hki] at hk
      cases hk
    · rw [hki, update_self] at hk
      rw [update_of_ne hji, (hlocks hk).2 j hji] at hj
      cases hj
    · rw [update_of_ne hji] at hj
      rw [update_of_ne hki] at hk
      exact h.unique hj hk

end Exclusive

end Corpc.Basis
