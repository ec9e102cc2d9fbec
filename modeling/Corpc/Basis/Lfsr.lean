/-
# Registers that shift and divide

A register of `n` bits is shifted down, and a polynomial is added to it whenever a one drops out.
Bits are fed in at the low end, before each shift.
-/

import Mathlib.Data.List.GetD
import Mathlib.Logic.Function.Iterate

namespace Corpc.Basis.Lfsr

open List BitVec

variable {n : ℕ} (poly : BitVec n)

def shift (r : BitVec n) : BitVec n :=
  if r.getLsbD 0 then r >>> 1 ^^^ poly else r >>> 1

def unit (b : Bool) : BitVec n :=
  if b then 1#n else 0#n

def feedBits (r : BitVec n) (bits : List Bool) : BitVec n :=
  bits.foldl (fun r b => shift poly (r ^^^ unit b)) r

@[simp]
theorem unit_false : (unit false : BitVec n) = 0#n := rfl

theorem unit_xor (a b : Bool) : (unit (a ^^ b) : BitVec n) = unit a ^^^ unit b := by
  cases a <;> cases b <;> simp [unit]

theorem getLsbD_unit (b : Bool) (i : ℕ) :
    (unit b : BitVec n).getLsbD i = (decide (i < n) && (decide (i = 0) && b)) := by
  cases b
  · simp
  · rw [unit, if_pos rfl, BitVec.getLsbD_one, Bool.and_true]
    by_cases hi : i = 0
    · subst hi
      simp
    · simp [hi]

theorem shift_xor (r s : BitVec n) : shift poly (r ^^^ s) = shift poly r ^^^ shift poly s := by
  unfold shift
  rw [getLsbD_xor, ushiftRight_xor_distrib]
  cases r.getLsbD 0 <;> cases s.getLsbD 0
  · rfl
  · simp [BitVec.xor_assoc]
  · simp only [Bool.true_xor, Bool.not_false, if_true, Bool.false_eq_true, if_false]
    rw [BitVec.xor_assoc, BitVec.xor_comm (s >>> 1), ← BitVec.xor_assoc]
  · simp only [Bool.true_xor, Bool.not_true, if_true, Bool.false_eq_true, if_false]
    rw [BitVec.xor_assoc, BitVec.xor_comm poly, BitVec.xor_assoc, BitVec.xor_self, BitVec.xor_zero]

theorem iterate_shift_xor (k : ℕ) (r s : BitVec n) :
    (shift poly)^[k] (r ^^^ s) = (shift poly)^[k] r ^^^ (shift poly)^[k] s := by
  induction k generalizing r s with
  | zero => rfl
  | succ k ih =>
    simp only [Function.iterate_succ_apply, shift_xor]
    exact ih _ _

variable {as bs : List Bool}

theorem feed_xor (hlen : as.length = bs.length) (r s : BitVec n) :
    feedBits poly (r ^^^ s) (List.zipWith (· ^^ ·) as bs) =
      feedBits poly r as ^^^ feedBits poly s bs := by
  induction as generalizing bs r s with
  | nil =>
    obtain rfl := eq_nil_of_length_eq_zero hlen.symm
    rfl
  | cons a as ih =>
    obtain ⟨b, bs, rfl⟩ := exists_cons_of_length_eq_add_one hlen.symm
    have hstep : shift poly (r ^^^ s ^^^ unit (a ^^ b)) =
        shift poly (r ^^^ unit a) ^^^ shift poly (s ^^^ unit b) := by
      rw [← shift_xor, unit_xor]
      congr 1
      rw [BitVec.xor_assoc, BitVec.xor_assoc, ← BitVec.xor_assoc s, BitVec.xor_comm s,
        BitVec.xor_assoc]
    show feedBits poly (shift poly (r ^^^ s ^^^ unit (a ^^ b))) _ = _
    rw [hstep]
    exact ih (Nat.succ.inj hlen) _ _

theorem feed_append (r : BitVec n) (as bs : List Bool) :
    feedBits poly r (as ++ bs) = feedBits poly (feedBits poly r as) bs :=
  foldl_append

variable {poly}

variable {r : BitVec n}

theorem iterate_shift_of_clear {k : ℕ} (hr : ∀ i < k, r.getLsbD i = false) :
    (shift poly)^[k] r = r >>> k := by
  induction k with
  | zero => rfl
  | succ k ih =>
    have hlow : (r >>> k).getLsbD 0 = false := by
      rw [getLsbD_ushiftRight]
      exact hr k (Nat.lt_succ_self k)
    rw [Function.iterate_succ_apply', ih fun i hi => hr i (by omega), shift, hlow,
      if_neg Bool.false_ne_true, BitVec.shiftRight_add]

variable {bits : List Bool}

theorem feedBits_eq_iterate {v : BitVec n}
    (hv : ∀ i, v.getLsbD i = bits.getD i false) (r : BitVec n) :
    feedBits poly r bits = (shift poly)^[bits.length] (r ^^^ v) := by
  induction bits generalizing v r with
  | nil =>
    obtain rfl : v = 0#n := eq_of_getLsbD_eq fun i _ => by simpa using hv i
    exact xor_zero.symm
  | cons b bits ih =>
    have hlow : ∀ i < 1, (v ^^^ unit b).getLsbD i = false := by
      intro i hi
      obtain rfl : i = 0 := by omega
      rw [getLsbD_xor, getLsbD_unit]
      by_cases hpos : 0 < n
      · rw [hv]
        simp [hpos]
      · rw [getLsbD_of_ge v 0 (by omega), decide_eq_false hpos]
        rfl
    have hrest : ∀ i, ((v ^^^ unit b) >>> 1).getLsbD i = bits.getD i false := by
      intro i
      rw [getLsbD_ushiftRight, getLsbD_xor, getLsbD_unit, hv, Nat.add_comm 1 i]
      simp
    have hmoved : shift poly (v ^^^ unit b) = (v ^^^ unit b) >>> 1 := iterate_shift_of_clear hlow
    have hsplit : shift poly (r ^^^ v) = shift poly (r ^^^ unit b) ^^^ (v ^^^ unit b) >>> 1 := by
      rw [← hmoved, ← shift_xor]
      congr 1
      rw [BitVec.xor_assoc, BitVec.xor_comm v, ← BitVec.xor_assoc (unit b), BitVec.xor_self,
        BitVec.zero_xor]
    show feedBits poly (shift poly (r ^^^ unit b)) bits = _
    rw [ih hrest, length_cons, Function.iterate_succ_apply, hsplit]

theorem true_mem_zipWith (hlen : as.length = bs.length) (hne : as ≠ bs) :
    true ∈ List.zipWith (· ^^ ·) as bs := by
  induction as generalizing bs with
  | nil => exact absurd (eq_nil_of_length_eq_zero hlen.symm).symm hne
  | cons a as ih =>
    obtain ⟨b, bs, rfl⟩ := exists_cons_of_length_eq_add_one hlen.symm
    by_cases hab : a = b
    · subst hab
      exact mem_cons_of_mem _ (ih (Nat.succ.inj hlen) fun h => hne (h ▸ rfl))
    · have hxor : (a ^^ b) = true := by
        cases a <;> cases b <;> simp_all
      rw [zipWith_cons_cons, hxor]
      exact mem_cons_self

section Bursts

variable (hpoly : poly.getLsbD (n - 1) = true)
include hpoly

theorem getLsbD_shift_top (r : BitVec n) : (shift poly r).getLsbD (n - 1) = r.getLsbD 0 := by
  have hpos : n - 1 < n := lt_of_getLsbD hpoly
  have htop : (r >>> 1).getLsbD (n - 1) = false := by
    rw [getLsbD_ushiftRight]
    exact getLsbD_of_ge r _ (by omega)
  unfold shift
  cases r.getLsbD 0
  · exact htop
  · show (r >>> 1 ^^^ poly).getLsbD (n - 1) = true
    rw [getLsbD_xor, htop, hpoly]
    rfl

/-- **A register that bits bring to zero holds these bits**, if they are not more than it has. -/
theorem getLsbD_of_feed_eq_zero (hlen : bits.length ≤ n)
    (h : feedBits poly r bits = 0#n) (i : ℕ) : r.getLsbD i = bits.getD i false := by
  induction bits generalizing r i with
  | nil =>
    rw [show r = 0#n from h]
    simp
  | cons b bits ih =>
    rw [length_cons] at hlen
    have hread : ∀ i, (shift poly (r ^^^ unit b)).getLsbD i = bits.getD i false :=
      fun i => ih (by omega) h i
    -- no bit comes that late, so none dropped out, and the shift can be undone
    have hlow : (r ^^^ unit b).getLsbD 0 = false := by
      rw [← getLsbD_shift_top hpoly, hread, getD_eq_default]
      omega
    cases i with
    | zero =>
      rw [getLsbD_xor, getLsbD_unit, decide_eq_true (by omega : 0 < n)] at hlow
      simpa using hlow
    | succ i =>
      have hi := hread i
      rw [shift, hlow, if_neg Bool.false_ne_true, BitVec.getLsbD_ushiftRight,
        BitVec.getLsbD_xor, getLsbD_unit, decide_eq_false (by omega : ¬1 + i = 0)] at hi
      simpa [Nat.add_comm 1 i] using hi

theorem feed_false_ne_zero (hr : r ≠ 0#n) (k : ℕ) :
    feedBits poly r (List.replicate k false) ≠ 0#n := by
  have hpos : n - 1 < n := lt_of_getLsbD hpoly
  induction k generalizing r with
  | zero => exact hr
  | succ k ih =>
    refine ih (r := shift poly (r ^^^ unit false)) fun hzero => hr ?_
    -- one zero bit is a burst of length one
    refine eq_of_getLsbD_eq fun i _ => ?_
    have hlen : [false].length ≤ n := by
      rw [length_singleton]
      omega
    rw [getLsbD_of_feed_eq_zero hpoly hlen hzero i]
    cases i <;> simp

/-- **A burst is not divided out**: the ones of a bit string lie within `n` places. -/
theorem feed_burst_ne_zero {p : ℕ} (hone : true ∈ bits)
    (hburst : ∀ i, bits[i]? = some true → p ≤ i ∧ i < p + n) :
    feedBits poly 0#n bits ≠ 0#n := by
  have hzeros : ∀ l : List Bool, (∀ b ∈ l, b = false) → l = List.replicate l.length false :=
    fun l h => eq_replicate_iff.2 ⟨rfl, h⟩
  have hfalse : ∀ k, feedBits poly 0#n (List.replicate k false) = 0#n := by
    intro k
    induction k with
    | zero => rfl
    | succ k ih =>
      have hshift : shift poly (0#n ^^^ unit false) = 0#n := by simp [shift]
      show feedBits poly (shift poly (0#n ^^^ unit false)) _ = _
      rw [hshift]
      exact ih
  have hfront : ∀ b ∈ bits.take p, b = false := by
    intro b hb
    obtain ⟨i, hi⟩ := mem_iff_getElem?.1 hb
    rw [List.getElem?_take] at hi
    obtain ⟨hlt, hi⟩ := Option.ite_none_right_eq_some.1 hi
    cases b
    · rfl
    · have := hburst i hi
      omega
  have hback : ∀ b ∈ (bits.drop p).drop n, b = false := by
    intro b hb
    obtain ⟨i, hi⟩ := mem_iff_getElem?.1 hb
    rw [List.getElem?_drop, List.getElem?_drop] at hi
    cases b
    · rfl
    · have := hburst _ hi
      omega
  have hsplit : bits = bits.take p ++ ((bits.drop p).take n ++ (bits.drop p).drop n) := by
    rw [take_append_drop, take_append_drop]
  have hmiddle : true ∈ (bits.drop p).take n := by
    rw [hsplit, mem_append, mem_append] at hone
    rcases hone with hmem | hmem | hmem
    · exact absurd (hfront true hmem) (by decide)
    · exact hmem
    · exact absurd (hback true hmem) (by decide)
  rw [hsplit, feed_append, feed_append, hzeros _ hfront, hfalse, hzeros _ hback]
  refine feed_false_ne_zero hpoly (fun hzero => ?_) _
  obtain ⟨i, hi, hget⟩ := getElem_of_mem hmiddle
  have hbit := getLsbD_of_feed_eq_zero hpoly (length_take_le n _) hzero i
  rw [getD_eq_getElem _ _ hi, hget] at hbit
  simp at hbit

theorem feed_ne_of_burst {p : ℕ} (hlen : as.length = bs.length) (hne : as ≠ bs)
    (hburst : ∀ i, as[i]? ≠ bs[i]? → p ≤ i ∧ i < p + n) (r : BitVec n) :
    feedBits poly r as ≠ feedBits poly r bs := by
  intro heq
  have hxor := feed_xor poly hlen r r
  rw [heq, BitVec.xor_self, BitVec.xor_self] at hxor
  refine feed_burst_ne_zero hpoly (true_mem_zipWith hlen hne) (fun i hi => hburst i ?_) hxor
  rintro heq
  rw [List.getElem?_zipWith, heq] at hi
  cases hb : bs[i]? <;> simp [hb] at hi

end Bursts

end Corpc.Basis.Lfsr
