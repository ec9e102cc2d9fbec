/-
# How long the event loop sleeps

Source: `co_routine.cpp`, `GetNextTimeoutInASecond`, whose result `co_eventloop` passes to
`epoll_wait`.

The function looks for the first slot in use, from the start of the wheel over the next 1000
slots, and answers with the distance to the end of that slot's byte, counted from the start of the
byte the wheel starts in.
-/

import Corpc.Co.TimeWheel
import Mathlib.Tactic.IntervalCases

namespace Corpc.Co

open Corpc.Basis Function Timeout

/-- The chain of byte masks, written out three times in the source: the milliseconds to the
end of the first byte that is not 0, for a word that is not 0. -/
def byteGroup (flag : BitVec 64) : ℕ :=
  if flag &&& 0x00000000000000FF#64 ≠ 0 then 8
  else if flag &&& 0x000000000000FF00#64 ≠ 0 then 16
  else if flag &&& 0x0000000000FF0000#64 ≠ 0 then 24
  else if flag &&& 0x00000000FF000000#64 ≠ 0 then 32
  else if flag &&& 0x000000FF00000000#64 ≠ 0 then 40
  else if flag &&& 0x0000FF0000000000#64 ≠ 0 then 48
  else if flag &&& 0x00FF000000000000#64 ≠ 0 then 56
  else 64

/-- The loop over the words either returns or comes to the last word. -/
inductive Scan
  | returned (ret : ℕ)
  | through (ret : ℕ)
  deriving DecidableEq

/-- The loop over the words from `i` up to `endIdx`, `none` when the fuel is used up. -/
def scanFlags (pFlags : Bitmap) (moldMask endIdx : ℕ) : ℕ → ℕ → ℕ → Option Scan
  | 0, _, _ => none
  | fuel + 1, i, ret =>
    if i = endIdx then some (.through ret)
    else if pFlags i ≠ 0 then some (.returned (ret + byteGroup (pFlags i)))
    else scanFlags pFlags moldMask endIdx fuel ((i + 1) &&& moldMask) (ret + 64)

variable {ι : Type*}

namespace Timeout

/-- `startFlag`: the bits of the first word from the start of the wheel on, moved down by
whole bytes.  The mask is an arithmetic shift of the sign bit. -/
def startFlag (w : Timeout ι) : BitVec 64 :=
  let startFlagIdx := w.llStartIdx &&& 63
  let shiftRightCnt := startFlagIdx &&& 0xFFFFFFF8
  let startMask := (0x8000000000000000#64).sshiftRight (63 - startFlagIdx)
  (w.pFlags (w.llStartIdx >>> 6) &&& startMask) >>> shiftRightCnt

/-- `endFlag`: the bits of the last word.  A shift by 64 is one by 0 on x86-64, so the mask of
a last slot at the end of its word is empty. -/
def endFlag (w : Timeout ι) : BitVec 64 :=
  let llendIdx := w.index (w.llStartIdx + 1000)
  let endFlagIdx := llendIdx &&& 63
  let endMask := (0x1#64 <<< ((endFlagIdx + 1) % 64)) - 1
  w.pFlags (llendIdx >>> 6) &&& endMask

/-- `GetNextTimeoutInASecond` after the wheel has been started. -/
def nextTimeout (w : Timeout ι) (allNow : ℕ) : Option ℕ :=
  if allNow < w.ullStart then some 1024
  else if w.startFlag ≠ 0 then some (byteGroup w.startFlag)
  else
    let ret := 64 - ((w.llStartIdx &&& 63) &&& 0xFFFFFFF8)
    let endIdx := w.index (w.llStartIdx + 1000) >>> 6
    let moldMask := w.iFlagSize - 1
    match scanFlags w.pFlags moldMask endIdx w.iFlagSize ((w.llStartIdx >>> 6 + 1) &&& moldMask)
        ret with
    | none => none
    | some (.returned ret) => some ret
    | some (.through ret) =>
      if w.endFlag ≠ 0 then some (ret + byteGroup w.endFlag) else some ret

end Timeout

/-- `GetNextTimeoutInASecond`: the wait, and the wheel, which it may start. -/
def getNextTimeoutInASecond (w : Timeout ι) (allNow : ℕ) : Option ℕ × Timeout ι :=
  let w := w.start allNow
  (w.nextTimeout allNow, w)

theorem byte_ne_zero_iff (flag : BitVec 64) (j : ℕ) :
    flag &&& (0xFF#64 <<< (8 * j)) ≠ 0 ↔ ∃ i, i / 8 = j ∧ flag.getLsbD i = true := by
  have hmask : ∀ i, (0xFF#64).getLsbD i = decide (i < 8) := by
    intro i
    rw [show 0xFF#64 = BitVec.allOnes 64 >>> 56 by decide, BitVec.getLsbD_ushiftRight,
      BitVec.getLsbD_allOnes]
    exact decide_eq_decide.2 (by omega)
  have hbit : ∀ i, (flag &&& (0xFF#64 <<< (8 * j))).getLsbD i
      = (flag.getLsbD i && decide (i / 8 = j)) := by
    intro i
    rw [BitVec.getLsbD_and, BitVec.getLsbD_shiftLeft, hmask]
    by_cases hset : flag.getLsbD i = true
    · have hlt := BitVec.lt_of_getLsbD hset
      have hiff : (i < 64 ∧ ¬i < 8 * j ∧ i - 8 * j < 8) ↔ i / 8 = j := by omega
      simp only [← hiff, hset, Bool.true_and, ← decide_not, ← Bool.decide_and, and_assoc]
    · simp [hset]
  constructor
  · intro h
    by_contra hnone
    push Not at hnone
    refine h (BitVec.zero_iff_eq_false.2 fun i => ?_)
    rw [hbit]
    by_cases hj : i / 8 = j
    · simp [hnone i hj]
    · simp [hj]
  · rintro ⟨i, hj, hset⟩ hzero
    have := BitVec.zero_iff_eq_false.1 hzero i
    rw [hbit] at this
    simp [hj, hset] at this

theorem chain_eq (c : ℕ → Prop) [DecidablePred c] {q : ℕ} (hq : q < 8) (hc : c q)
    (hbelow : ∀ j < q, ¬c j) :
    (if c 0 then 8 else if c 1 then 16 else if c 2 then 24 else if c 3 then 32
      else if c 4 then 40 else if c 5 then 48 else if c 6 then 56 else 64) = 8 * q + 8 := by
  have h0 := hbelow 0
  have h1 := hbelow 1
  have h2 := hbelow 2
  have h3 := hbelow 3
  have h4 := hbelow 4
  have h5 := hbelow 5
  have h6 := hbelow 6
  clear hbelow
  interval_cases q <;> simp_all

theorem byteGroup_eq {flag : BitVec 64} {b : ℕ} (h : Lowest flag b) :
    byteGroup flag = 8 * (b / 8) + 8 := by
  have hb := h.lt
  refine chain_eq (fun j => flag &&& (0xFF#64 <<< (8 * j)) ≠ 0) (by omega) ?_ ?_
  · exact (byte_ne_zero_iff flag _).2 ⟨b, rfl, h.set⟩
  · intro j hj hne
    obtain ⟨i, hi, hset⟩ := (byte_ne_zero_iff flag j).1 hne
    rw [h.below i (by omega)] at hset
    exact absurd hset (by decide)

namespace Timeout

variable (w : Timeout ι)

/-- Slot `y` is marked in the bitmap, the slots being counted on beyond the end of the ring. -/
def slot (y : ℕ) : Bool :=
  w.pFlags.get (y % w.iItemSize)

theorem flagSize_pow : ∃ k, 16 ≤ 2 ^ k ∧ w.iFlagSize = 2 ^ k ∧ w.iItemSize = 64 * 2 ^ k := by
  obtain ⟨k, hk, hsize⟩ := w.size_pow
  obtain ⟨j, rfl⟩ := Nat.exists_eq_add_of_le hk
  have hpow : 2 ^ (10 + j) = 64 * 2 ^ (4 + j) := by ring
  refine ⟨4 + j, ?_, ?_, hsize.trans hpow⟩
  · calc 16 = 2 ^ 4 := rfl
      _ ≤ 2 ^ (4 + j) := Nat.pow_le_pow_right (by decide) (by omega)
  · rw [iFlagSize, hsize, hpow, Nat.shiftRight_eq_div_pow]
    omega

theorem itemSize_eq : w.iItemSize = 64 * w.iFlagSize := by
  obtain ⟨k, _, hflag, hitem⟩ := w.flagSize_pow
  omega

theorem mold_eq (x : ℕ) : x &&& (w.iFlagSize - 1) = x % w.iFlagSize := by
  obtain ⟨k, _, hflag, _⟩ := w.flagSize_pow
  rw [hflag, Nat.and_two_pow_sub_one_eq_mod]

theorem slot_eq (y : ℕ) : w.slot y = (w.pFlags (y / 64 % w.iFlagSize)).getLsbD (y % 64) := by
  rw [slot, Bitmap.get, itemSize_eq, Nat.mod_mul_right_div_self, Nat.mod_mul_right_mod]

theorem slot_word {n b : ℕ} (hb : b < 64) :
    w.slot (64 * n + b) = (w.pFlags (n % w.iFlagSize)).getLsbD b := by
  rw [slot_eq, show (64 * n + b) / 64 = n by omega, show (64 * n + b) % 64 = b by omega]

theorem noneIn_word {n : ℕ} (h : w.pFlags (n % w.iFlagSize) = 0) :
    NoneIn w.slot (64 * n) (64 * (n + 1)) := by
  intro z hz hlt
  obtain ⟨b, rfl⟩ := Nat.exists_eq_add_of_le hz
  rw [w.slot_word (by omega), h]
  exact BitVec.getLsbD_zero

theorem first_word {n b : ℕ} (h : Lowest (w.pFlags (n % w.iFlagSize)) b) :
    First w.slot (64 * n) (64 * n + b) := by
  refine ⟨by omega, (w.slot_word h.lt).trans h.set, fun z hz hlt => ?_⟩
  obtain ⟨i, rfl⟩ := Nat.exists_eq_add_of_le hz
  have := h.lt
  rw [w.slot_word (by omega)]
  exact h.below i (by omega)

theorem scanFlags_spec (n last fuel ret : ℕ) (hle : n ≤ last)
    (hround : last - n < w.iFlagSize) (hfuel : last - n < fuel) :
    let scan := scanFlags w.pFlags (w.iFlagSize - 1) (last % w.iFlagSize) fuel (n % w.iFlagSize) ret
    (∃ y, First w.slot (64 * n) y ∧ y < 64 * last ∧
      scan = some (.returned (ret + (8 * ((y - 64 * n) / 8) + 8)))) ∨
    (NoneIn w.slot (64 * n) (64 * last) ∧ scan = some (.through (ret + 64 * (last - n)))) := by
  induction fuel generalizing n ret with
  | zero => exact absurd hfuel (Nat.not_lt_zero _)
  | succ fuel ih =>
    simp only [scanFlags]
    rcases hle.eq_or_lt with rfl | hlt
    · refine Or.inr ⟨fun z hz hzlt => absurd hz (by omega), ?_⟩
      rw [if_pos rfl, Nat.sub_self, Nat.mul_zero, Nat.add_zero]
    -- fewer words are left than the ring has, so this one is not the last
    have hne : n % w.iFlagSize ≠ last % w.iFlagSize := by
      intro heq
      have hdvd := Nat.dvd_of_mod_eq_zero (Nat.sub_mod_eq_zero_of_mod_eq heq.symm)
      exact absurd (Nat.le_of_dvd (by omega) hdvd) (by omega)
    rw [if_neg hne]
    by_cases hflag : w.pFlags (n % w.iFlagSize) ≠ 0
    · obtain ⟨b, hb⟩ := exists_lowest hflag
      have hb64 := hb.lt
      refine Or.inl ⟨64 * n + b, w.first_word hb, by omega, ?_⟩
      rw [if_pos hflag, byteGroup_eq hb, Nat.add_sub_cancel_left]
    · have hnone := w.noneIn_word (not_not.1 hflag)
      have hnext : n % w.iFlagSize + 1 &&& w.iFlagSize - 1 = (n + 1) % w.iFlagSize := by
        rw [mold_eq, Nat.mod_add_mod]
      rw [if_neg hflag, hnext]
      rcases ih (n + 1) (ret + 64) hlt (by omega) (by omega) with
        ⟨y, hy, hylt, hscan⟩ | ⟨hrest, hscan⟩
      · refine Or.inl ⟨y, hy.from_mid hnone (by omega), hylt, hscan.trans ?_⟩
        have := hy.le
        congr 2
        omega
      · refine Or.inr ⟨hnone.trans hrest, hscan.trans ?_⟩
        congr 2
        omega

def base : ℕ := 8 * (w.llStartIdx / 8)

theorem startFlagIdx_eq : w.llStartIdx &&& 63 = w.llStartIdx % 64 :=
  Nat.and_two_pow_sub_one_eq_mod w.llStartIdx 6

theorem shiftRightCnt_eq :
    w.llStartIdx % 64 &&& 0xFFFFFFF8 = w.base - 64 * (w.llStartIdx / 64) := by
  have hbytes : ∀ f < 64, f &&& 0xFFFFFFF8 = 8 * (f / 8) := by decide +kernel
  rw [hbytes _ (Nat.mod_lt _ (by decide)), base]
  omega

theorem startFlag_bit (i : ℕ) :
    w.startFlag.getLsbD i =
      (decide (w.llStartIdx ≤ w.base + i ∧ w.base + i < 64 * (w.llStartIdx / 64 + 1)) &&
        w.slot (w.base + i)) := by
  have hmask : ∀ f < 64, (0x8000000000000000#64).sshiftRight (63 - f)
      = BitVec.allOnes 64 <<< f := by decide +kernel
  have hword : w.llStartIdx / 64 % w.iFlagSize = w.llStartIdx / 64 := by
    refine Nat.mod_eq_of_lt ?_
    have hlt := w.startIdx_lt
    rw [itemSize_eq] at hlt
    omega
  have hbase : w.base = 8 * (w.llStartIdx / 8) := rfl
  simp only [startFlag, startFlagIdx_eq, shiftRightCnt_eq, hmask _ (Nat.mod_lt _ (by decide)),
    Nat.shiftRight_eq_div_pow, BitVec.getLsbD_ushiftRight, BitVec.getLsbD_and,
    BitVec.getLsbD_shiftLeft, BitVec.getLsbD_allOnes]
  generalize hj : w.base - 64 * (w.llStartIdx / 64) + i = j
  have hsum : w.base + i = 64 * (w.llStartIdx / 64) + j := by omega
  by_cases hj64 : j < 64
  · rw [hsum, w.slot_word hj64, hword, Bool.and_comm]
    congr 1
    simp only [← decide_not, ← Bool.decide_and]
    exact decide_eq_decide.2 (by omega)
  · rw [BitVec.getLsbD_of_ge _ _ (by omega), Bool.false_and, decide_eq_false (by omega),
      Bool.false_and]

theorem startFlag_spec :
    (∃ b, Lowest w.startFlag b ∧ First w.slot w.llStartIdx (w.base + b) ∧
      w.base + b < 64 * (w.llStartIdx / 64 + 1)) ∨
    (w.startFlag = 0 ∧ NoneIn w.slot w.llStartIdx (64 * (w.llStartIdx / 64 + 1))) := by
  have hbase : w.base = 8 * (w.llStartIdx / 8) := rfl
  by_cases hflag : w.startFlag = 0
  · refine Or.inr ⟨hflag, fun z hz hlt => ?_⟩
    have hbit := w.startFlag_bit (z - w.base)
    rw [hflag, show w.base + (z - w.base) = z by omega, decide_eq_true ⟨hz, hlt⟩,
      Bool.true_and] at hbit
    exact hbit.symm.trans BitVec.getLsbD_zero
  · obtain ⟨b, hb⟩ := exists_lowest hflag
    have hset := hb.set
    rw [startFlag_bit, Bool.and_eq_true, decide_eq_true_iff] at hset
    refine Or.inl ⟨b, hb, ⟨hset.1.1, hset.2, fun z hz hlt => ?_⟩, hset.1.2⟩
    have hbit := hb.below (z - w.base) (by omega)
    rw [startFlag_bit, show w.base + (z - w.base) = z by omega,
      decide_eq_true ⟨hz, by omega⟩, Bool.true_and] at hbit
    exact hbit

theorem endIdx_eq :
    w.index (w.llStartIdx + 1000) >>> 6 = (w.llStartIdx + 1000) / 64 % w.iFlagSize ∧
      w.index (w.llStartIdx + 1000) &&& 63 = (w.llStartIdx + 1000) % 64 := by
  rw [index_eq, itemSize_eq, Nat.shiftRight_eq_div_pow, Nat.and_two_pow_sub_one_eq_mod _ 6]
  exact ⟨Nat.mod_mul_right_div_self _ _ _, Nat.mod_mul_right_mod _ _ _⟩

theorem endFlag_spec {n : ℕ} (hn : n = (w.llStartIdx + 1000) / 64) :
    (∃ b, Lowest w.endFlag b ∧ First w.slot (64 * n) (64 * n + b) ∧
      64 * n + b ≤ w.llStartIdx + 1000) ∨
    w.endFlag = 0 := by
  by_cases hflag : w.endFlag = 0
  · exact Or.inr hflag
  have hmask : ∀ f < 64, (0x1#64 <<< ((f + 1) % 64)) - 1
      = if f = 63 then 0 else BitVec.allOnes 64 >>> (63 - f) := by decide +kernel
  -- the mask is not empty
  have hlast : (w.llStartIdx + 1000) % 64 ≠ 63 := by
    intro h63
    refine hflag ?_
    simp only [endFlag, w.endIdx_eq.2, hmask _ (Nat.mod_lt _ (by decide)), if_pos h63]
    exact BitVec.and_zero
  have hbit : ∀ i < 64, w.endFlag.getLsbD i
      = (decide (64 * n + i ≤ w.llStartIdx + 1000) && w.slot (64 * n + i)) := by
    intro i hi
    simp only [endFlag, w.endIdx_eq.1, w.endIdx_eq.2, hmask _ (Nat.mod_lt _ (by decide)),
      if_neg hlast, BitVec.getLsbD_and, BitVec.getLsbD_ushiftRight, BitVec.getLsbD_allOnes]
    rw [← hn, ← w.slot_word hi, Bool.and_comm]
    congr 1
    exact decide_eq_decide.2 (by omega)
  obtain ⟨b, hb⟩ := exists_lowest hflag
  have hset := hb.set
  rw [hbit b hb.lt, Bool.and_eq_true, decide_eq_true_iff] at hset
  refine Or.inl ⟨b, hb, ⟨by omega, hset.2, fun z hz hlt => ?_⟩, hset.1⟩
  obtain ⟨i, rfl⟩ := Nat.exists_eq_add_of_le hz
  have hlt64 := hb.lt
  have hbelow := hb.below i (by omega)
  rw [hbit i (by omega), decide_eq_true (by omega), Bool.true_and] at hbelow
  exact hbelow

/-- **What `GetNextTimeoutInASecond` answers**: the distance from `base` to the end of the byte of
the first marked slot, or to the last word. -/
theorem nextTimeout_spec {allNow : ℕ} (hnow : w.ullStart ≤ allNow) :
    (∃ y, First w.slot w.llStartIdx y ∧ y ≤ w.llStartIdx + 1000 ∧
      w.nextTimeout allNow = some (8 * ((y - w.base) / 8) + 8)) ∨
    (NoneIn w.slot w.llStartIdx (64 * ((w.llStartIdx + 1000) / 64)) ∧
      w.nextTimeout allNow = some (64 * ((w.llStartIdx + 1000) / 64) - w.base)) := by
  have hbase : w.base = 8 * (w.llStartIdx / 8) := rfl
  have hround : 16 ≤ w.iFlagSize := by
    obtain ⟨k, hk, hflag, _⟩ := w.flagSize_pow
    omega
  unfold nextTimeout
  rw [if_neg (by omega)]
  rcases w.startFlag_spec with ⟨b, hb, hfirst, hword⟩ | ⟨hzero, hnone⟩
  · have hne : w.startFlag ≠ 0 := by
      intro hzero
      rw [hzero] at hb
      exact absurd hb.set (by simp)
    refine Or.inl ⟨w.base + b, hfirst, by omega, ?_⟩
    rw [if_pos hne, byteGroup_eq hb, Nat.add_sub_cancel_left]
  rw [if_neg (not_not.2 hzero)]
  simp only [startFlagIdx_eq, shiftRightCnt_eq, w.endIdx_eq.1, mold_eq, Nat.shiftRight_eq_div_pow]
  -- the words in between
  generalize hn : (w.llStartIdx + 1000) / 64 = n
  rcases w.scanFlags_spec (w.llStartIdx / 64 + 1) n w.iFlagSize
    (64 - (w.base - 64 * (w.llStartIdx / 64))) (by omega) (by omega) (by omega) with
    ⟨y, hy, hlt, hscan⟩ | ⟨hrest, hscan⟩
  · have hle := hy.le
    refine Or.inl ⟨y, hy.from_mid hnone (by omega), by omega, ?_⟩
    rw [hscan]
    refine congrArg some ?_
    omega
  -- the last word
  rw [hscan]
  rcases w.endFlag_spec hn.symm with ⟨b, hb, hfirst, hle⟩ | hend
  · have hne : w.endFlag ≠ 0 := by
      intro hzero
      rw [hzero] at hb
      exact absurd hb.set (by simp)
    refine Or.inl ⟨64 * n + b, hfirst.from_mid (hnone.trans hrest) (by omega), hle, ?_⟩
    simp only [if_pos hne, byteGroup_eq hb]
    refine congrArg some ?_
    omega
  · refine Or.inr ⟨hnone.trans hrest, ?_⟩
    simp only [if_neg (not_not.2 hend)]
    refine congrArg some ?_
    omega

variable {w} {allNow v : ℕ}

theorem nextTimeout_range (hnow : w.ullStart ≤ allNow) :
    ∃ v, w.nextTimeout allNow = some v ∧ 8 ≤ v ∧ v ≤ 1008 := by
  have hbase : w.base = 8 * (w.llStartIdx / 8) := rfl
  rcases w.nextTimeout_spec hnow with ⟨y, hy, hle, hv⟩ | ⟨_, hv⟩
  · have := hy.le
    exact ⟨_, hv, by omega, by omega⟩
  · exact ⟨_, hv, by omega, by omega⟩

theorem nextTimeout_le {d : ℕ} (hnow : w.ullStart ≤ allNow)
    (hset : w.slot (w.llStartIdx + d) = true) (hv : w.nextTimeout allNow = some v) :
    v ≤ d + 15 := by
  have hbase : w.base = 8 * (w.llStartIdx / 8) := rfl
  rcases w.nextTimeout_spec hnow with ⟨y, hy, hle, hspec⟩ | ⟨hnone, hspec⟩
  · have hfirst := hy.le_of_holds (Nat.le_add_right _ d) hset
    have := Option.some.inj (hv.symm.trans hspec)
    omega
  · have hbeyond := hnone.le_of_holds (Nat.le_add_right _ d) hset
    have := Option.some.inj (hv.symm.trans hspec)
    omega

theorem sixteen_le_nextTimeout (hnow : w.ullStart ≤ allNow)
    (hnone : NoneIn w.slot w.llStartIdx (w.base + 8)) (hv : w.nextTimeout allNow = some v) :
    16 ≤ v := by
  have hbase : w.base = 8 * (w.llStartIdx / 8) := rfl
  rcases w.nextTimeout_spec hnow with ⟨y, hy, _, hspec⟩ | ⟨_, hspec⟩
  · have hbeyond := hnone.le_of_holds hy.le hy.holds
    have := Option.some.inj (hv.symm.trans hspec)
    omega
  · have := Option.some.inj (hv.symm.trans hspec)
    omega

theorem Placed.wait_le (h : w.Placed) (hnow : w.ullStart ≤ allNow) {idx : ℕ}
    {item : TimeoutItem ι} (hitem : item ∈ w.pItems idx) (hv : w.nextTimeout allNow = some v) :
    w.ullStart + v ≤ item.ullExpireTime + 15 := by
  obtain ⟨d, _, hidx, htime⟩ := h.placed idx item hitem
  have hset : w.slot (w.llStartIdx + d) = true := by
    rw [slot, ← hidx]
    exact h.flagged idx item hitem
  have := nextTimeout_le hnow hset hv
  omega

end Timeout

namespace Timers

structure Earliest (t : Timers ι) (item : TimeoutItem ι) : Prop where
  mem : ∃ idx, item ∈ t.pTimeout.pItems idx
  le : ∀ idx, ∀ other ∈ t.pTimeout.pItems idx, item.ullExpireTime ≤ other.ullExpireTime

/-- The wait that `co_eventloop` passes to `epoll_wait`. -/
def waittime (t : Timers ι) (allNow : ℕ) : Option ℕ :=
  (getNextTimeoutInASecond t.pTimeout allNow).1

theorem waittime_eq (t : Timers ι) (allNow : ℕ) (hstarted : 0 < t.pTimeout.ullStart) :
    t.waittime allNow = t.pTimeout.nextTimeout allNow := by
  have hstart : t.pTimeout.start allNow = t.pTimeout := if_neg (Nat.ne_of_gt hstarted)
  rw [waittime, getNextTimeoutInASecond, hstart]

/-- The wheel of `AllocEpoll` seven milliseconds after it was allocated, at the last slot of
its first byte. -/
def seventh (ι : Type*) : Timeout ι where
  pItems := fun _ => []
  iItemSize := 0x10000
  size_pow := ⟨16, by decide, by decide⟩
  pFlags := fun _ => 0
  ullStart := 8
  llStartIdx := 7
  startIdx_lt := by decide

/-- The slot of a timer `delay` milliseconds away, which is not the one the wheel starts
at. -/
def delayedSlot (ι : Type*) (delay : ℕ) : ℕ :=
  (seventh ι).slotOf (8 + delay)

theorem delayedSlot_ne {delay : ℕ} (hdelay : 0 < delay) : delayedSlot ι delay ≠ 7 := by
  have hsize : (seventh ι).iItemSize = 0x10000 := rfl
  have hstart : (seventh ι).llStartIdx = 7 := rfl
  have hzero : (seventh ι).ullStart = 8 := rfl
  simp only [delayedSlot, slotOf, index_eq, hsize, hstart, hzero]
  split_ifs <;> omega

variable [DecidableEq ι]

theorem seventh_reached :
    ∃ w, allocTimeout ι 0x10000 1 = some w ∧
      (fresh w).step (.takeAllTimeout 8) = some (fresh (seventh ι)) :=
  ⟨_, rfl, rfl⟩

/-- That wheel with one timer, `delay` milliseconds away. -/
def delayed (a : ι) (delay : ℕ) : Timers ι :=
  ((fresh (seventh ι)).addTimeout ⟨a, 8 + delay⟩ 8).2

theorem delayed_reached (a : ι) (delay : ℕ) : Reached 0x10000 steady (delayed a delay) := by
  obtain ⟨w, halloc, hstep⟩ := seventh_reached (ι := ι)
  refine ⟨1, w, [.takeAllTimeout 8, .addTimeout ⟨a, 8 + delay⟩ 8], by decide, halloc, ?_⟩
  have hclock : steady (fresh w) (.takeAllTimeout 8) = true := by
    refine decide_eq_true ?_
    omega
  rw [run_cons, restrict_eq_some.2 ⟨hclock, hstep⟩]
  rfl

theorem delayed_eq (a : ι) (delay : ℕ) :
    (delayed a delay).pTimeout.pItems
        = update (fun _ => []) (delayedSlot ι delay) [⟨a, 8 + delay⟩] ∧
      (delayed a delay).pTimeout.pFlags = Bitmap.set (fun _ => 0) (delayedSlot ι delay) ∧
      (delayed a delay).pTimeout.iItemSize = 0x10000 ∧
      (delayed a delay).pTimeout.ullStart = 8 ∧
      (delayed a delay).pTimeout.llStartIdx = 7 := by
  have hstart : (seventh ι).start 8 = seventh ι := rfl
  have hnow : ¬8 < (seventh ι).ullStart := Nat.lt_irrefl 8
  have hexpired : ¬8 + delay < 8 := by omega
  simp only [delayed, addTimeout, fresh, hstart, if_neg hnow, if_neg hexpired, addTail]
  exact ⟨rfl, rfl, rfl, rfl, rfl⟩

theorem delayed_earliest (a : ι) (delay : ℕ) : (delayed a delay).Earliest ⟨a, 8 + delay⟩ := by
  obtain ⟨hitems, -⟩ := delayed_eq a delay
  refine ⟨⟨delayedSlot ι delay, ?_⟩, fun idx other hother => ?_⟩
  · rw [hitems, update_self]
    exact List.mem_singleton_self _
  · rw [hitems] at hother
    by_cases hidx : idx = delayedSlot ι delay
    · subst hidx
      rw [update_self, List.mem_singleton] at hother
      exact Nat.le_of_eq (congrArg _ hother.symm)
    · rw [update_of_ne hidx] at hother
      exact absurd hother List.not_mem_nil

theorem delayed_noneIn (a : ι) {delay : ℕ} (hdelay : 0 < delay) :
    NoneIn (delayed a delay).pTimeout.slot (delayed a delay).pTimeout.llStartIdx
      ((delayed a delay).pTimeout.base + 8) := by
  obtain ⟨-, hflags, hsize, -, hstart⟩ := delayed_eq a delay
  intro z hz hlt
  rw [base] at hlt
  obtain rfl : z = 7 := by omega
  rw [slot, hflags, hsize, Bitmap.get_set, decide_eq_false (delayedSlot_ne hdelay).symm]
  rfl

/-- **The wait is counted from the start of the wheel**, so that a sleep ends up to `15 + delay`
milliseconds after the earliest timer. -/
theorem wait_from_now_iff [Inhabited ι] :
    (∀ iSize (t : Timers ι) allNow, Reached iSize (fun _ _ => true) t →
      t.pTimeout.ullStart ≤ allNow → ∃ w, t.waittime allNow = some w ∧ 0 < w ∧ w ≤ 1100) ∧
    (∀ iSize (t : Timers ι) item delay w, Reached iSize steady t → t.Earliest item →
      t.waittime (t.pTimeout.ullStart + delay) = some w →
      t.pTimeout.ullStart + delay + w ≤ item.ullExpireTime + 15 + delay) ∧
    ∀ delay, (∀ (t : Timers ι) item allNow w, Reached 0x10000 steady t →
        allNow = t.pTimeout.ullStart + delay → t.Earliest item → allNow ≤ item.ullExpireTime →
        item.ullExpireTime ≤ allNow + 900 → t.waittime allNow = some w →
        allNow + w ≤ item.ullExpireTime + 15) ↔ delay = 0 := by
  have hlate : ∀ iSize (t : Timers ι) item delay w, Reached iSize steady t → t.Earliest item →
      t.waittime (t.pTimeout.ullStart + delay) = some w →
      t.pTimeout.ullStart + delay + w ≤ item.ullExpireTime + 15 + delay := by
    intro iSize t item delay w ht hitem hw
    rw [t.waittime_eq _ ht.placed.started] at hw
    obtain ⟨idx, hmem⟩ := hitem.mem
    have := ht.placed.wait_le (Nat.le_add_right _ delay) hmem hw
    omega
  refine ⟨fun iSize t allNow _ hnow => ?_, hlate, fun delay => ⟨fun h => ?_, ?_⟩⟩
  · -- a wheel that is started by the call starts now
    have hstarted : (t.pTimeout.start allNow).ullStart ≤ allNow := by
      unfold start
      split_ifs
      · exact Nat.le_refl allNow
      · exact hnow
    obtain ⟨w, hw, hlow, hhigh⟩ := nextTimeout_range hstarted
    exact ⟨w, hw, by omega, by omega⟩
  · by_contra hdelay
    have hpos : 0 < delay := Nat.pos_of_ne_zero hdelay
    obtain ⟨-, -, -, hstart, -⟩ := delayed_eq (default : ι) delay
    have hle : (delayed (default : ι) delay).pTimeout.ullStart ≤ 8 + delay := by omega
    obtain ⟨w, hw, _, _⟩ := nextTimeout_range hle
    have hlong := sixteen_le_nextTimeout (by omega) (delayed_noneIn default hpos) hw
    rw [← waittime_eq _ _ (by omega)] at hw
    have := h _ _ (8 + delay) w (delayed_reached default delay) (by rw [hstart])
      (delayed_earliest default delay) (Nat.le_refl _) (Nat.le_add_right _ 900) hw
    have hexpire : 8 + delay + w ≤ 8 + delay + 15 := this
    omega
  · rintro rfl t item allNow w ht rfl hitem _ _ hw
    exact hlate _ t item 0 w ht hitem hw

/-- A timer for 3 ms later, and the wait from then. -/
theorem wait_from_now_delayed : Reached 0x10000 steady (delayed (0 : ℕ) 3) ∧
    (delayed (0 : ℕ) 3).Earliest ⟨0, 11⟩ ∧ (delayed (0 : ℕ) 3).pTimeout.ullStart = 8 ∧
    ∃ w, (delayed (0 : ℕ) 3).waittime (8 + 3) = some w ∧ 8 + 3 + w ≤ 11 + 15 + 3 := by
  obtain ⟨-, hlate, -⟩ := wait_from_now_iff (ι := ℕ)
  obtain ⟨-, -, -, hstart, -⟩ := delayed_eq (0 : ℕ) 3
  obtain ⟨w, hw, -⟩ := nextTimeout_range (by omega : (delayed (0 : ℕ) 3).pTimeout.ullStart ≤ 11)
  rw [← waittime_eq _ _ (by omega)] at hw
  have := hlate _ _ _ 3 w (delayed_reached 0 3) (delayed_earliest 0 3) (by rw [hstart]; exact hw)
  rw [hstart] at this
  exact ⟨delayed_reached 0 3, delayed_earliest 0 3, hstart, w, hw, this⟩

/-- A timer set for 900 ms at time 1000 and routines that run until 1800: the loop then
sleeps for 904 ms, until 804 ms after the timer. -/
theorem sleep_past_timer :
    ((allocTimeout ℕ 0x10000 1000).bind fun w =>
      (run (restrict steady step) (fresh w) [.takeAllTimeout 1000, .addTimeout ⟨0, 1900⟩ 1000]).map
        fun t => (t.pTimeout.ullStart, t.pTimeout.pItems 900, t.waittime 1800))
      = some (1000, [⟨0, 1900⟩], some 904) ∧ ¬1800 + 904 ≤ 1900 + 15 := by
  decide +kernel

end Timers

end Corpc.Co
