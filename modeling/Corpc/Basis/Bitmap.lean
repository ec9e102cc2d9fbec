/-
# Bitmaps of 64-bit words

A set of natural numbers kept in an array of 64-bit words: number `x` is bit `x % 64` of word `x /
64`.  Adding and dropping a number touch that bit only.
-/

import Mathlib.Data.Nat.Find
import Mathlib.Logic.Function.Basic
import Mathlib.Tactic.Common

namespace Corpc.Basis

open Function BitVec

/-- An array of 64-bit words. -/
abbrev Bitmap := ℕ → BitVec 64

namespace Bitmap

def get (m : Bitmap) (x : ℕ) : Bool :=
  (m (x / 64)).getLsbD (x % 64)

def set (m : Bitmap) (x : ℕ) : Bitmap :=
  update m (x / 64) (m (x / 64) ||| 1#64 <<< (x % 64))

def clear (m : Bitmap) (x : ℕ) : Bitmap :=
  update m (x / 64) (m (x / 64) &&& ~~~(1#64 <<< (x % 64)))

variable (m : Bitmap) (x y : ℕ)

theorem getLsbD_mask (i : ℕ) : (1#64 <<< (x % 64)).getLsbD i = decide (i = x % 64) := by
  have hx : x % 64 < 64 := Nat.mod_lt x (by decide)
  rw [← twoPow_eq, getLsbD_twoPow]
  simp only [hx, decide_true, Bool.true_and]
  exact decide_eq_decide.2 eq_comm

theorem get_set : (m.set x).get y = (decide (y = x) || m.get y) := by
  by_cases hword : y / 64 = x / 64
  · have hbit : y % 64 = x % 64 ↔ y = x := by omega
    simp only [get, set, hword, update_self, getLsbD_or, getLsbD_mask, hbit]
    exact Bool.or_comm _ _
  · have hne : y ≠ x := fun h => hword (h ▸ rfl)
    simp [get, set, update_of_ne hword, hne]

theorem get_clear : (m.clear x).get y = (decide (y ≠ x) && m.get y) := by
  by_cases hword : y / 64 = x / 64
  · have hbit : y % 64 = x % 64 ↔ y = x := by omega
    have hlt : y % 64 < 64 := Nat.mod_lt y (by decide)
    simp only [get, clear, hword, update_self, getLsbD_and, getLsbD_not,
      getLsbD_mask, hbit, hlt, decide_true, Bool.true_and, ne_eq, decide_not]
    exact Bool.and_comm _ _
  · have hne : y ≠ x := fun h => hword (h ▸ rfl)
    simp [get, clear, update_of_ne hword, hne]

end Bitmap

/-- Bit `b` is the lowest one set in a word. -/
structure Lowest (flag : BitVec 64) (b : ℕ) : Prop where
  set : flag.getLsbD b = true
  below : ∀ i < b, flag.getLsbD i = false

theorem Lowest.lt {flag : BitVec 64} {b : ℕ} (h : Lowest flag b) : b < 64 :=
  lt_of_getLsbD h.set

theorem exists_lowest {flag : BitVec 64} (h : flag ≠ 0) : ∃ b, Lowest flag b := by
  have hsome : ∃ b, flag.getLsbD b = true := by
    by_contra hnone
    push Not at hnone
    exact h (zero_iff_eq_false.2 fun i => Bool.eq_false_iff.2 (hnone i))
  refine ⟨Nat.find hsome, Nat.find_spec hsome, fun i hi => ?_⟩
  exact Bool.eq_false_iff.2 (Nat.find_min hsome hi)

/-- `y` is the first number from `lo` on with the property. -/
structure First (p : ℕ → Bool) (lo y : ℕ) : Prop where
  le : lo ≤ y
  holds : p y = true
  before : ∀ z, lo ≤ z → z < y → p z = false

/-- No number from `lo` on and below `hi` has the property. -/
def NoneIn (p : ℕ → Bool) (lo hi : ℕ) : Prop :=
  ∀ z, lo ≤ z → z < hi → p z = false

section First

variable {p : ℕ → Bool} {lo mid hi y z : ℕ}

theorem First.le_of_holds (h : First p lo y) (hz : lo ≤ z) (hp : p z = true) : y ≤ z := by
  by_contra hlt
  have := h.before z hz (by omega)
  simp_all

theorem First.from_mid (hnone : NoneIn p lo mid) (hmid : lo ≤ mid) (h : First p mid y) :
    First p lo y := by
  refine ⟨Nat.le_trans hmid h.le, h.holds, fun z hz hzy => ?_⟩
  by_cases hlt : z < mid
  · exact hnone z hz hlt
  · exact h.before z (by omega) hzy

theorem NoneIn.trans (hleft : NoneIn p lo mid) (hright : NoneIn p mid hi) : NoneIn p lo hi := by
  intro z hz hzhi
  by_cases hlt : z < mid
  · exact hleft z hz hlt
  · exact hright z (by omega) hzhi

theorem NoneIn.le_of_holds (h : NoneIn p lo hi) (hz : lo ≤ z) (hp : p z = true) : hi ≤ z := by
  by_contra hlt
  have := h z hz (by omega)
  simp_all

end First

end Corpc.Basis
