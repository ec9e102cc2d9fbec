/-
# The timer wheel of the event loop

Source: `co_routine.cpp`, `stTimeout_t` with `AllocTimeout`, `AddTimeout`, `TakeAllTimeout` and the
list operations `AddTail`, `RemoveFromLink`, `PopHead`, `Join` on timer items.

The wheel is a ring of slots, one for each millisecond, with a bitmap of the slots in use.  Slot
`llStartIdx` stands for the time `ullStart`.  A timer too far away for the ring is parked in the
last slot.  `TakeAllTimeout` empties the slots up to the current time and turns the ring.
-/

import Mathlib.Data.Nat.ModEq
import Mathlib.Tactic.Ring
import Corpc.Basis.Bitmap
import Corpc.Basis.Run

namespace Corpc.Co

open Corpc.Basis Function List Nat

/-- `stTimeoutItem_t`: the address of a timer item with the field the wheel reads. -/
structure TimeoutItem (ι : Type*) where
  address : ι
  ullExpireTime : ℕ
  deriving DecidableEq

/-- `stTimeout_t`.  `AllocTimeout` takes no other sizes, and every index is masked. -/
structure Timeout (ι : Type*) where
  pItems : ℕ → List (TimeoutItem ι)
  iItemSize : ℕ
  size_pow : ∃ k, 10 ≤ k ∧ iItemSize = 2 ^ k
  pFlags : Bitmap
  ullStart : ℕ
  llStartIdx : ℕ
  startIdx_lt : llStartIdx < iItemSize

/-- `pLink` of an item: the slot it is in, or a list of the event loop. -/
inductive Place
  | slot (idx : ℕ)
  | list
  deriving DecidableEq

/-- The wheel with the `pLink` fields of the items. -/
structure Timers (ι : Type*) where
  pTimeout : Timeout ι
  pLink : ι → Option Place

variable {ι : Type*}

namespace Timeout

def iFlagSize (w : Timeout ι) : ℕ :=
  w.iItemSize >>> 6

/-- `x & (iItemSize - 1)` -/
def index (w : Timeout ι) (x : ℕ) : ℕ :=
  x &&& (w.iItemSize - 1)

theorem index_eq (w : Timeout ι) (x : ℕ) : w.index x = x % w.iItemSize := by
  obtain ⟨k, _, hk⟩ := w.size_pow
  rw [index, hk, and_two_pow_sub_one_eq_mod]

theorem size_pos (w : Timeout ι) : 0 < w.iItemSize :=
  zero_lt_of_lt w.startIdx_lt

end Timeout

/-- `AllocTimeout`, at the time `now` that `GetTickMS` gives: `none` where it asserts. -/
def allocTimeout (ι : Type*) (iSize now : ℕ) : Option (Timeout ι) :=
  if hpow : iSize &&& (iSize - 1) ≠ 0 then none
  else if hsmall : iSize < 1024 then none
  else some
    { pItems := fun _ => []
      iItemSize := iSize
      size_pow := by
        push Not at hpow hsmall
        obtain ⟨k, hk⟩ := (and_sub_one_eq_zero_iff_isPowerOfTwo (by omega)).1 hpow
        refine ⟨k, ?_, hk⟩
        by_contra hlt
        have : 2 ^ k ≤ 2 ^ 9 := Nat.pow_le_pow_right (by decide) (by omega)
        omega
      pFlags := fun _ => 0
      ullStart := now
      llStartIdx := 0
      startIdx_lt := by omega }

namespace Timeout

def start (w : Timeout ι) (allNow : ℕ) : Timeout ι :=
  if w.ullStart = 0 then
    { w with ullStart := allNow, llStartIdx := 0, startIdx_lt := w.size_pos }
  else w

/-- The slot `AddTimeout` chooses: `diff` milliseconds on, the last one for what is further. -/
def slotOf (w : Timeout ι) (ullExpireTime : ℕ) : ℕ :=
  let diff := ullExpireTime - w.ullStart
  w.index (w.llStartIdx + if diff ≥ w.iItemSize then w.iItemSize - 1 else diff)

/-- One round of the loop of `TakeAllTimeout`: `Join` of a slot that is not empty. -/
def takeSlot (w : Timeout ι) (idx : ℕ) (apResult : List (TimeoutItem ι)) :
    Timeout ι × List (TimeoutItem ι) :=
  if w.pItems idx ≠ [] then
    ({ w with pFlags := w.pFlags.clear idx, pItems := update w.pItems idx [] },
      apResult ++ w.pItems idx)
  else (w, apResult)

/-- The loop of `TakeAllTimeout` after `n` rounds. -/
def takeSlots (w : Timeout ι) (apResult : List (TimeoutItem ι)) :
    ℕ → Timeout ι × List (TimeoutItem ι)
  | 0 => (w, apResult)
  | n + 1 =>
    let (w', apResult') := w.takeSlots apResult n
    w'.takeSlot (w.index (w.llStartIdx + n)) apResult'

/-- `int cnt = allNow - ullStart + 1`, at most the size of the wheel. -/
def cnt (w : Timeout ι) (allNow : ℕ) : ℤ :=
  min (Int.bmod (allNow - w.ullStart + 1) (2 ^ 32)) w.iItemSize

/-- The last lines of `TakeAllTimeout`.  The mask of the new start index is applied to a
`long long`, and takes the residue of a negative one too. -/
def turn (w : Timeout ι) (allNow : ℕ) (cnt : ℤ) : Timeout ι :=
  { w with
    ullStart := allNow
    llStartIdx := ((w.llStartIdx + cnt - 1) % w.iItemSize).toNat
    startIdx_lt := by
      have hpos := w.size_pos
      have := Int.emod_lt_of_pos (w.llStartIdx + cnt - 1) (Int.natCast_pos.2 hpos)
      omega }

end Timeout

namespace Timers

variable [DecidableEq ι]

/-- `AddTail(apTimeout->pItems + idx, apItem)`: an item that is in a list already stays there. -/
def addTail (t : Timers ι) (idx : ℕ) (apItem : TimeoutItem ι) : Timers ι :=
  if (t.pLink apItem.address).isSome then t
  else
    { pTimeout :=
        { t.pTimeout with
          pItems := update t.pTimeout.pItems idx (t.pTimeout.pItems idx ++ [apItem]) }
      pLink := update t.pLink apItem.address (some (.slot idx)) }

/-- `AddTimeout`, with `true` for the return value 0. -/
def addTimeout (t : Timers ι) (apItem : TimeoutItem ι) (allNow : ℕ) : Bool × Timers ι :=
  let t := { t with pTimeout := t.pTimeout.start allNow }
  if allNow < t.pTimeout.ullStart then (false, t)
  else if apItem.ullExpireTime < allNow then (false, t)
  else
    let idx := t.pTimeout.slotOf apItem.ullExpireTime
    let t := t.addTail idx apItem
    (true, { t with pTimeout := { t.pTimeout with pFlags := t.pTimeout.pFlags.set idx } })

/-- `TakeAllTimeout` into an empty list: what it takes out is in that list afterwards. -/
def takeAllTimeout (t : Timers ι) (allNow : ℕ) : List (TimeoutItem ι) × Timers ι :=
  let w := t.pTimeout.start allNow
  if allNow < w.ullStart then ([], { t with pTimeout := w })
  else if w.cnt allNow < 0 then ([], { t with pTimeout := w })
  else
    let (w', apResult) := w.takeSlots [] (w.cnt allNow).toNat
    (apResult,
      { pTimeout := w'.turn allNow (w.cnt allNow)
        pLink := fun a => if a ∈ apResult.map (·.address) then some .list else t.pLink a })

/-- `RemoveFromLink`: the bit of the slot is left as it is. -/
def removeFromLink (t : Timers ι) (a : ι) : Timers ι :=
  match t.pLink a with
  | none => t
  | some .list => { t with pLink := update t.pLink a none }
  | some (.slot idx) =>
    { pTimeout :=
        { t.pTimeout with
          pItems := update t.pTimeout.pItems idx
            ((t.pTimeout.pItems idx).filter (·.address ≠ a)) }
      pLink := update t.pLink a none }

/-- `PopHead` of a list of the event loop. -/
def popHead (t : Timers ι) (a : ι) : Option (Timers ι) :=
  if t.pLink a = some .list then some { t with pLink := update t.pLink a none }
  else none

end Timers

inductive TimerOp (ι : Type*)
  | addTimeout (apItem : TimeoutItem ι) (allNow : ℕ)
  | takeAllTimeout (allNow : ℕ)
  | removeFromLink (a : ι)
  | popHead (a : ι)

def Timers.step [DecidableEq ι] (t : Timers ι) : TimerOp ι → Option (Timers ι)
  | .addTimeout apItem allNow => some (t.addTimeout apItem allNow).2
  | .takeAllTimeout allNow => some (t.takeAllTimeout allNow).2
  | .removeFromLink a => some (t.removeFromLink a)
  | .popHead a => t.popHead a

namespace Timeout

variable (w : Timeout ι) (apResult : List (TimeoutItem ι))

/-- Slot `idx` is among the first `n` of the ring. -/
def Visited (n idx : ℕ) : Prop :=
  ∃ i < n, idx = (w.llStartIdx + i) % w.iItemSize

theorem visited_succ (n idx : ℕ) :
    w.Visited (n + 1) idx ↔ w.Visited n idx ∨ idx = w.index (w.llStartIdx + n) := by
  rw [index_eq]
  constructor
  · rintro ⟨i, hi, hidx⟩
    rcases Nat.lt_succ_iff_lt_or_eq.1 hi with hlt | rfl
    · exact Or.inl ⟨i, hlt, hidx⟩
    · exact Or.inr hidx
  · rintro (⟨i, hi, hidx⟩ | hidx)
    · exact ⟨i, by omega, hidx⟩
    · exact ⟨n, by omega, hidx⟩

/-- What the loop of `TakeAllTimeout` leaves of a wheel after `n` rounds. -/
structure Taken (n : ℕ) (w' : Timeout ι) : Prop where
  size : w'.iItemSize = w.iItemSize
  startIdx : w'.llStartIdx = w.llStartIdx
  emptied : ∀ idx, w.Visited n idx → w'.pItems idx = []
  kept : ∀ idx, ¬w.Visited n idx → w'.pItems idx = w.pItems idx ∧
    w'.pFlags.get idx = w.pFlags.get idx

theorem takeSlot_size (idx : ℕ) : (w.takeSlot idx apResult).1.iItemSize = w.iItemSize := by
  unfold takeSlot
  split_ifs <;> rfl

theorem takeSlot_startIdx (idx : ℕ) :
    (w.takeSlot idx apResult).1.llStartIdx = w.llStartIdx := by
  unfold takeSlot
  split_ifs <;> rfl

theorem takeSlot_emptied (idx : ℕ) : (w.takeSlot idx apResult).1.pItems idx = [] := by
  unfold takeSlot
  split_ifs with h
  · exact update_self idx [] w.pItems
  · exact not_not.1 h

theorem takeSlot_kept {idx other : ℕ} (hne : other ≠ idx) :
    (w.takeSlot idx apResult).1.pItems other = w.pItems other ∧
      (w.takeSlot idx apResult).1.pFlags.get other = w.pFlags.get other := by
  unfold takeSlot
  split_ifs
  · refine ⟨update_of_ne hne [] w.pItems, ?_⟩
    rw [Bitmap.get_clear]
    simp [hne]
  · exact ⟨rfl, rfl⟩

theorem takeSlots_taken (n : ℕ) : w.Taken n (w.takeSlots apResult n).1 := by
  induction n with
  | zero =>
    refine ⟨rfl, rfl, fun idx h => ?_, fun _ _ => ⟨rfl, rfl⟩⟩
    obtain ⟨i, hi, _⟩ := h
    exact absurd hi (not_lt_zero i)
  | succ n ih =>
    obtain ⟨hsize, hstart, hemptied, hkept⟩ := ih
    refine ⟨(takeSlot_size _ _ _).trans hsize, (takeSlot_startIdx _ _ _).trans hstart,
      fun idx h => ?_, fun idx h => ?_⟩
    · -- an earlier slot stays empty, the slot of this round is emptied
      by_cases hidx : idx = w.index (w.llStartIdx + n)
      · subst hidx
        exact takeSlot_emptied _ _ _
      · have hbefore := ((w.visited_succ n idx).1 h).resolve_right hidx
        exact (takeSlot_kept _ _ hidx).1.trans (hemptied idx hbefore)
    · rw [visited_succ, not_or] at h
      obtain ⟨hitems, hflag⟩ := takeSlot_kept (w.takeSlots apResult n).1
        (w.takeSlots apResult n).2 h.2
      exact ⟨hitems.trans (hkept idx h.1).1, hflag.trans (hkept idx h.1).2⟩

/-- **The invariant of the wheel.**  The slot of a timer stands for a time that is not
later than the timer's, and its bit is set. -/
structure Placed : Prop where
  started : 0 < w.ullStart
  flagged : ∀ idx, ∀ item ∈ w.pItems idx, w.pFlags.get idx = true
  placed : ∀ idx, ∀ item ∈ w.pItems idx, ∃ d < w.iItemSize,
    idx = (w.llStartIdx + d) % w.iItemSize ∧ w.ullStart + d ≤ item.ullExpireTime

variable {w}

theorem Placed.start (h : w.Placed) (allNow : ℕ) : w.start allNow = w :=
  if_neg (ne_of_gt h.started)

theorem slotOf_placed {e : ℕ} (hle : w.ullStart ≤ e) :
    ∃ d < w.iItemSize, w.slotOf e = (w.llStartIdx + d) % w.iItemSize ∧ w.ullStart + d ≤ e := by
  have hpos := w.size_pos
  unfold slotOf
  simp only [index_eq]
  split_ifs with hfar
  · exact ⟨w.iItemSize - 1, by omega, rfl, by omega⟩
  · exact ⟨e - w.ullStart, by omega, rfl, by omega⟩

theorem cnt_eq {allNow : ℕ} (hle : w.ullStart ≤ allNow) (hfits : allNow - w.ullStart + 1 < 2 ^ 31) :
    w.cnt allNow = (min (allNow - w.ullStart + 1) w.iItemSize : ℕ) := by
  have hdiff : (allNow - w.ullStart + 1 : ℤ) = (allNow - w.ullStart + 1 : ℕ) := by omega
  rw [cnt, hdiff, Int.bmod_eq_of_le (by omega) (by omega)]
  omega

theorem Taken.mem_left {w' : Timeout ι} {n : ℕ} (h : w.Taken n w') {idx : ℕ}
    {item : TimeoutItem ι} (hitem : item ∈ w'.pItems idx) :
    ¬w.Visited n idx ∧ item ∈ w.pItems idx := by
  have hnot : ¬w.Visited n idx := by
    intro hvisited
    rw [h.emptied idx hvisited] at hitem
    exact absurd hitem not_mem_nil
  exact ⟨hnot, (h.kept idx hnot).1 ▸ hitem⟩

theorem Taken.turn_placed {w' : Timeout ι} {n allNow : ℕ} (htaken : w.Taken n w') (h : w.Placed)
    (hle : w.ullStart ≤ allNow) (hn : n = min (allNow - w.ullStart + 1) w.iItemSize) :
    (w'.turn allNow n).Placed := by
  have hpos := w.size_pos
  -- the new start index is the old one moved by all slots but the last
  have hstart : (w'.turn allNow n).llStartIdx = (w.llStartIdx + (n - 1)) % w.iItemSize := by
    have hcast : (w'.llStartIdx + n - 1 : ℤ) = (w.llStartIdx + (n - 1) : ℕ) := by
      have := htaken.startIdx
      omega
    show ((w'.llStartIdx + n - 1 : ℤ) % w'.iItemSize).toNat = _
    rw [hcast, htaken.size, ← Int.natCast_emod, Int.toNat_natCast]
  refine ⟨lt_of_lt_of_le h.started hle, fun idx item hitem => ?_, fun idx item hitem => ?_⟩
  · obtain ⟨hnot, hold⟩ := htaken.mem_left hitem
    exact (htaken.kept idx hnot).2.trans (h.flagged idx item hold)
  · obtain ⟨hnot, hold⟩ := htaken.mem_left hitem
    obtain ⟨d, hd, rfl, htime⟩ := h.placed idx item hold
    have hafter : n ≤ d := by
      by_contra hlt
      exact hnot ⟨d, by omega, rfl⟩
    have hsize : (w'.turn allNow n).iItemSize = w.iItemSize := htaken.size
    have hnow : (w'.turn allNow n).ullStart = allNow := rfl
    refine ⟨d - (n - 1), by omega, ?_, by omega⟩
    rw [hstart, hsize, mod_add_mod]
    congr 1
    omega

end Timeout

namespace Timers

variable [DecidableEq ι] {t : Timers ι}

/-- The clock read by `TakeAllTimeout` is less than `2 ^ 31` milliseconds ahead of the
wheel. -/
def steady (t : Timers ι) : TimerOp ι → Bool
  | .takeAllTimeout allNow => allNow - t.pTimeout.ullStart + 1 < 2 ^ 31
  | _ => true

theorem addTimeout_placed (h : t.pTimeout.Placed) (apItem : TimeoutItem ι) (allNow : ℕ) :
    (t.addTimeout apItem allNow).2.pTimeout.Placed := by
  simp only [addTimeout, h.start allNow]
  split_ifs with hpast hexpired
  · exact h
  · exact h
  -- the bit of the slot is set, whether the item is put there or is in a list already
  have hslot := t.pTimeout.slotOf_placed (e := apItem.ullExpireTime) (by omega)
  unfold addTail
  split_ifs with hlinked
  · refine ⟨h.started, fun idx item hitem => ?_, h.placed⟩
    rw [Bitmap.get_set, h.flagged idx item hitem, Bool.or_true]
  · refine ⟨h.started, fun idx item hitem => ?_, fun idx item hitem => ?_⟩
    all_goals
      by_cases hidx : idx = t.pTimeout.slotOf apItem.ullExpireTime
    · simp [Bitmap.get_set, hidx]
    · have hold : item ∈ t.pTimeout.pItems idx := by
        simpa [update_of_ne hidx] using hitem
      simp [Bitmap.get_set, h.flagged idx item hold]
    · subst hidx
      simp only [update_self, mem_append, mem_singleton] at hitem
      rcases hitem with hold | rfl
      · exact h.placed _ item hold
      · exact hslot
    · have hold : item ∈ t.pTimeout.pItems idx := by
        simpa [update_of_ne hidx] using hitem
      exact h.placed idx item hold

theorem takeAllTimeout_placed (h : t.pTimeout.Placed) {allNow : ℕ}
    (hfits : allNow - t.pTimeout.ullStart + 1 < 2 ^ 31) :
    (t.takeAllTimeout allNow).2.pTimeout.Placed := by
  simp only [takeAllTimeout, h.start allNow]
  split_ifs with hpast hneg
  · exact h
  · exact h
  have hle : t.pTimeout.ullStart ≤ allNow := by omega
  rw [Timeout.cnt_eq hle hfits]
  exact (t.pTimeout.takeSlots_taken [] _).turn_placed h hle rfl

theorem removeFromLink_placed (h : t.pTimeout.Placed) (a : ι) :
    (t.removeFromLink a).pTimeout.Placed := by
  unfold removeFromLink
  split
  · exact h
  · exact h
  · rename_i idx _
    have hold : ∀ other, ∀ item ∈ update t.pTimeout.pItems idx
        ((t.pTimeout.pItems idx).filter (·.address ≠ a)) other, item ∈ t.pTimeout.pItems other := by
      intro other item hitem
      by_cases hother : other = idx
      · subst hother
        rw [update_self] at hitem
        exact mem_of_mem_filter hitem
      · rwa [update_of_ne hother] at hitem
    exact ⟨h.started, fun other item hitem => h.flagged other item (hold other item hitem),
      fun other item hitem => h.placed other item (hold other item hitem)⟩

theorem step_placed {t t' : Timers ι} {op : TimerOp ι} (h : t.pTimeout.Placed)
    (hsteady : t.steady op = true) (hstep : t.step op = some t') : t'.pTimeout.Placed := by
  cases op with
  | addTimeout apItem allNow =>
    cases hstep
    exact addTimeout_placed h apItem allNow
  | takeAllTimeout allNow =>
    cases hstep
    exact takeAllTimeout_placed h (of_decide_eq_true hsteady)
  | removeFromLink a =>
    cases hstep
    exact removeFromLink_placed h a
  | popHead a =>
    obtain ⟨-, rfl⟩ := Option.ite_some_none_eq_some.1 hstep
    exact h

def fresh (w : Timeout ι) : Timers ι where
  pTimeout := w
  pLink := fun _ => none

/-- The states that the operations reach from a wheel of a size allocated at some time
after 0, each operation meeting `ok`. -/
def Reached (iSize : ℕ) (ok : Timers ι → TimerOp ι → Bool) (t : Timers ι) : Prop :=
  ∃ now w ops, 0 < now ∧ allocTimeout ι iSize now = some w ∧
    run (restrict ok step) (fresh w) ops = some t

theorem Reached.placed {iSize : ℕ} (h : Reached iSize steady t) : t.pTimeout.Placed := by
  obtain ⟨now, w, ops, hnow, hw, hrun⟩ := h
  refine run_restrict_invariant (I := fun t => t.pTimeout.Placed)
    (fun _ _ _ hI hok hstep => step_placed hI hok hstep) ?_ hrun
  unfold allocTimeout at hw
  split_ifs at hw
  cases hw
  exact ⟨hnow, fun _ _ hitem => absurd hitem not_mem_nil, fun _ _ hitem => absurd hitem not_mem_nil⟩

end Timers

end Corpc.Co
