/-
# Short writes: `Connection::write`

`corpc_io.cpp`.  `Connection::write` calls `::write` until the kernel has taken the buffer:

A call of `::write` that succeeds leaves `errno` as it was.  So after a short write the loop goes on
or gives up by what an earlier call, of anything, has left in `errno`.

The counters are `uint32_t` and the result of `::write` is kept in an `int`: sizes from `2 ^ 32` on
are cut, and a count from `2 ^ 31` on is taken for a failure.
-/

import Mathlib.Algebra.Group.Int.Defs
import Mathlib.Algebra.Group.Nat.Defs
import Mathlib.Data.Int.Notation
import Mathlib.Data.List.Basic
import Mathlib.Tactic.Common

namespace Corpc.Io

open List Option Bool UInt32

inductive Errno
  | eagain
  | eintr
  | other (code : ℕ)
  deriving DecidableEq

/-- `errno == EAGAIN || errno == EINTR`. -/
def Errno.retry : Errno → Bool
  | .eagain | .eintr => true
  | .other _ => false

/-- What `::write` on a stream socket gives: it takes `n` bytes, or all it was given if these are
fewer, or it fails and sets `errno`. -/
inductive WriteResult
  | wrote (n : ℕ)
  | failed (errno : Errno)
  deriving DecidableEq

/-- The variables of `Connection::write`, `errno`, and what the kernel has been passed. -/
structure Writing where
  sentNum : UInt32
  leftNum : UInt32
  errno : Errno
  kernel : List UInt8

/-- What a call of `Connection::write` comes to: its value, the bytes the kernel was passed, and the
results of `::write` it has seen. -/
structure Written where
  ret : ℤ
  kernel : List UInt8
  calls : List WriteResult
  deriving DecidableEq

/-- `ret = ::write(fd_, buf + sentNum, leftNum)` and the branch after it. -/
def Writing.call (buf : List UInt8) (s : Writing) : WriteResult → Writing
  | .wrote n =>
    let count := min n s.leftNum.toNat
    let kernel := s.kernel ++ (buf.drop s.sentNum.toNat).take count
    -- `int ret` is positive up to 2 ^ 31 only
    if 0 < count ∧ count < 2 ^ 31 then
      { s with sentNum := s.sentNum + UInt32.ofNat count,
               leftNum := s.leftNum - UInt32.ofNat count, kernel }
    else { s with kernel }
  | .failed errno => { s with errno }

def Writing.again (s : Writing) : Bool := 0 < s.leftNum && s.errno.retry

/-- The value of `Connection::write` after its loop. -/
def Writing.ret (s : Writing) : ℤ := if 0 < s.leftNum then -1 else s.sentNum.toNat

/-- The loop, on the results of the calls to come; `none` if it waits for more of them. -/
def writeLoop (buf : List UInt8) : Writing → List WriteResult → Option Written
  | _, [] => none
  | s, r :: rs =>
    let s' := s.call buf r
    if s'.again then (writeLoop buf s' rs).map fun out => { out with calls := r :: out.calls }
    else some ⟨s'.ret, s'.kernel, [r]⟩

/-- `Connection::write(buf, nbyte)`, where `errno` is what earlier calls have left there. -/
def connectionWrite (errno : Errno) (buf : List UInt8) (results : List WriteResult) :
    Option Written :=
  writeLoop buf ⟨0, UInt32.ofNat buf.length, errno, []⟩ results

def total : List WriteResult → ℕ
  | [] => 0
  | .wrote n :: rs => n + total rs
  | .failed _ :: rs => total rs

/-- Every count up to the end of the buffer fits an `int`. -/
def Small : ℕ → List WriteResult → Prop
  | _, [] => True
  | left, .wrote n :: rs => min n left < 2 ^ 31 ∧ Small (left - n) rs
  | left, .failed _ :: rs => Small left rs

/-- The first `::write` takes bytes, the loop sees some left after it, and `errno` is neither
`EAGAIN` nor `EINTR` already. -/
def staleShort (errno : Errno) (buf : List UInt8) : List WriteResult → Bool
  | .wrote n :: _ =>
    let left := buf.length % 2 ^ 32
    !errno.retry && decide (n < left ∨ 2 ^ 31 ≤ min n left)
  | _ => false

variable {n : ℕ}

theorem staleShort_wrote {errno : Errno} {buf : List UInt8} (hhard : errno.retry = false)
    (hshort : n < buf.length % 2 ^ 32 ∨ 2 ^ 31 ≤ min n (buf.length % 2 ^ 32))
    (rs : List WriteResult) : staleShort errno buf (.wrote n :: rs) = true := by
  rw [staleShort, hhard, decide_eq_true hshort]
  rfl

def Retried (results : List WriteResult) : Prop :=
  ∀ errno, .failed errno ∈ results → errno.retry = true

theorem small_of_lt {left : ℕ} (h : left < 2 ^ 31) (results : List WriteResult) :
    Small left results := by
  induction results generalizing left with
  | nil => trivial
  | cons r rs ih =>
    cases r with
    | wrote n => exact ⟨by omega, ih (by omega)⟩
    | failed errno => exact ih h

/-- The loop is on its way: what is sent has been passed, in order, and the rest is left. -/
structure Writing.OnWay (buf : List UInt8) (s : Writing) : Prop where
  left : s.sentNum.toNat + s.leftNum.toNat = buf.length
  kernel : s.kernel = buf.take s.sentNum.toNat

section Loop

variable {buf : List UInt8} {s : Writing} {results : List WriteResult}

theorem leftNum_pos_iff : 0 < s.leftNum ↔ 0 < s.leftNum.toNat := by
  rw [lt_iff_toNat_lt]
  rfl

theorem toNat_ofNat_min (n : ℕ) (left : UInt32) :
    (UInt32.ofNat (min n left.toNat)).toNat = min n left.toNat :=
  UInt32.toNat_ofNat_of_lt' (Nat.lt_of_le_of_lt (Nat.min_le_right ..) left.toNat_lt)

theorem Writing.call_wrote (buf : List UInt8) (hsmall : min n s.leftNum.toNat < 2 ^ 31)
    (hsum : s.sentNum.toNat + s.leftNum.toNat < 2 ^ 32) :
    (s.call buf (.wrote n)).sentNum.toNat = s.sentNum.toNat + min n s.leftNum.toNat ∧
      (s.call buf (.wrote n)).leftNum.toNat = s.leftNum.toNat - n ∧
      (s.call buf (.wrote n)).errno = s.errno ∧
      (s.call buf (.wrote n)).kernel =
        s.kernel ++ (buf.drop s.sentNum.toNat).take (min n s.leftNum.toNat) := by
  by_cases hpos : 0 < min n s.leftNum.toNat
  · simp only [Writing.call, if_pos (And.intro hpos hsmall)]
    refine ⟨?_, ?_, trivial, trivial⟩
    · rw [UInt32.toNat_add, toNat_ofNat_min]
      exact Nat.mod_eq_of_lt (by omega)
    · have hle : UInt32.ofNat (min n s.leftNum.toNat) ≤ s.leftNum := by
        rw [le_iff_toNat_le, toNat_ofNat_min]
        exact Nat.min_le_right ..
      rw [UInt32.toNat_sub_of_le _ _ hle, toNat_ofNat_min]
      omega
  · simp only [Writing.call, if_neg fun h : 0 < min n s.leftNum.toNat ∧ _ => hpos h.1]
    exact ⟨by omega, by omega, trivial, trivial⟩

theorem Writing.OnWay.call_wrote (h : s.OnWay buf) (hlen : buf.length < 2 ^ 32)
    (hsmall : min n s.leftNum.toNat < 2 ^ 31) : (s.call buf (.wrote n)).OnWay buf := by
  have hleft := h.left
  obtain ⟨hs, hl, -, hk⟩ := Writing.call_wrote buf hsmall (by omega)
  refine ⟨by omega, ?_⟩
  rw [hk, hs, h.kernel, take_add]

/-- **The loop passes everything**, over any failures it retries, unless it starts with a short
write and an `errno` it does not retry. -/
theorem Writing.OnWay.passes (h : s.OnWay buf) (hlen : buf.length < 2 ^ 32)
    (hfirst : ∀ n rs, results = .wrote n :: rs → n < s.leftNum.toNat → s.errno.retry = true)
    (hfail : Retried results) (htotal : s.leftNum.toNat ≤ total results)
    (hsmall : Small s.leftNum.toNat results) (hne : results ≠ []) :
    ∃ out, writeLoop buf s results = some out ∧ out.kernel = buf ∧ out.ret = buf.length := by
  induction results generalizing s with
  | nil => exact absurd rfl hne
  | cons r rs ih =>
    have hrest : Retried rs := fun e he => hfail e (mem_cons_of_mem _ he)
    obtain ⟨hway, hretry, htotal', hsmall'⟩ : (s.call buf r).OnWay buf ∧
        (0 < (s.call buf r).leftNum → (s.call buf r).errno.retry = true) ∧
          (s.call buf r).leftNum.toNat ≤ total rs ∧ Small (s.call buf r).leftNum.toNat rs := by
      cases r with
      | wrote n =>
        have hleft := h.left
        obtain ⟨-, hl, he, -⟩ := Writing.call_wrote buf hsmall.1 (by omega)
        refine ⟨h.call_wrote hlen hsmall.1, fun hmore => ?_, ?_, hl ▸ hsmall.2⟩
        · have hpos := leftNum_pos_iff.1 hmore
          rw [he]
          exact hfirst n rs rfl (by omega)
        · simp only [total] at htotal
          omega
      | failed e => exact ⟨⟨h.left, h.kernel⟩, fun _ => hfail e (by simp), htotal, hsmall⟩
    by_cases hmore : 0 < (s.call buf r).leftNum
    · have hagain : (s.call buf r).again = true := by simp [Writing.again, hmore, hretry hmore]
      have hne' : rs ≠ [] := by
        rintro rfl
        have hpos := leftNum_pos_iff.1 hmore
        simp only [total] at htotal'
        omega
      obtain ⟨out, hout, hk, hr⟩ :=
        ih hway (fun _ _ _ _ => hretry hmore) hrest htotal' hsmall' hne'
      refine ⟨{ out with calls := r :: out.calls }, ?_, hk, hr⟩
      simp only [writeLoop, hagain, if_true, hout, map_some]
    · have hdone : (s.call buf r).again = false := by simp [Writing.again, hmore]
      have hall : (s.call buf r).sentNum.toNat = buf.length := by
        have hsum := hway.left
        have hzero : ¬0 < (s.call buf r).leftNum.toNat := fun h => hmore (leftNum_pos_iff.2 h)
        omega
      refine ⟨⟨(s.call buf r).ret, (s.call buf r).kernel, [r]⟩, ?_, ?_, ?_⟩
      · simp only [writeLoop, hdone, false_eq_true, if_false]
      · rw [hway.kernel, hall, take_length]
      · simp only [Writing.ret, if_neg hmore, hall]

theorem Writing.length_call (results : List WriteResult)
    (hsum : s.sentNum.toNat + s.leftNum.toNat = buf.length) (hlen : buf.length < 2 ^ 32)
    (r : WriteResult) :
    (s.call buf r).sentNum.toNat + (s.call buf r).leftNum.toNat = buf.length ∧
      ((s.call buf r).kernel.length + (s.call buf r).leftNum.toNat =
          s.kernel.length + s.leftNum.toNat ∧
        (Small (s.call buf r).leftNum.toNat results → Small s.leftNum.toNat (r :: results)) ∨
      s.kernel.length + s.leftNum.toNat <
          (s.call buf r).kernel.length + (s.call buf r).leftNum.toNat ∧
        0 < (s.call buf r).leftNum.toNat) := by
  cases r with
  | wrote n =>
    have htake : ((buf.drop s.sentNum.toNat).take (min n s.leftNum.toNat)).length =
        min n s.leftNum.toNat := by
      rw [length_take, length_drop]
      omega
    by_cases hsmall : min n s.leftNum.toNat < 2 ^ 31
    · obtain ⟨hs, hl, -, hk⟩ := Writing.call_wrote buf hsmall (by omega)
      have hk := congrArg List.length hk
      rw [length_append, htake] at hk
      exact ⟨by omega, .inl ⟨by omega, fun h => ⟨hsmall, hl ▸ h⟩⟩⟩
    · simp only [Writing.call,
        if_neg fun h : 0 < min n s.leftNum.toNat ∧ min n s.leftNum.toNat < 2 ^ 31 => hsmall h.2,
        length_append, htake]
      exact ⟨hsum, .inr ⟨by omega, by omega⟩⟩
  | failed e => exact ⟨hsum, .inl ⟨rfl, id⟩⟩

variable {out : Written}

theorem writeLoop_cons {r : WriteResult} (h : writeLoop buf s (r :: results) = some out) :
    ((s.call buf r).again = true ∧ ∃ out', writeLoop buf (s.call buf r) results = some out' ∧
        out = { out' with calls := r :: out'.calls }) ∨
      ((s.call buf r).again = false ∧ out = ⟨(s.call buf r).ret, (s.call buf r).kernel, [r]⟩) := by
  simp only [writeLoop] at h
  split_ifs at h with hagain
  · obtain ⟨out', hout', rfl⟩ := map_eq_some_iff.1 h
    exact .inl ⟨hagain, out', hout', rfl⟩
  · exact .inr ⟨by simpa using hagain, (some.inj h).symm⟩

theorem Writing.leftNum_of_ret (h : s.ret = n) : s.leftNum.toNat = 0 := by
  by_contra hne
  have hpos : 0 < s.leftNum := leftNum_pos_iff.2 (Nat.pos_of_ne_zero hne)
  rw [Writing.ret, if_pos hpos] at h
  omega

/-- **A loop that succeeds has passed all that was left.** -/
theorem writeLoop_length (hsum : s.sentNum.toNat + s.leftNum.toNat = buf.length)
    (hlen : buf.length < 2 ^ 32) (h : writeLoop buf s results = some out)
    (hret : out.ret = buf.length) :
    s.kernel.length + s.leftNum.toNat ≤ out.kernel.length ∧
      (out.kernel.length = s.kernel.length + s.leftNum.toNat → Small s.leftNum.toNat results) := by
  induction results generalizing s out with
  | nil => exact nomatch h
  | cons r rs ih =>
    obtain ⟨hsum', hcall⟩ := Writing.length_call rs hsum hlen r
    rcases writeLoop_cons h with ⟨-, out', hout', rfl⟩ | ⟨-, rfl⟩
    · obtain ⟨hle, hsmall⟩ := ih hsum' hout' hret
      rcases hcall with ⟨heq, hback⟩ | ⟨hlt, -⟩
      · exact ⟨heq ▸ hle, fun hk => hback (hsmall (hk.trans heq.symm))⟩
      · dsimp only
        exact ⟨by omega, fun hk => absurd hk (by omega)⟩
    · have hzero := Writing.leftNum_of_ret hret
      rcases hcall with ⟨heq, hback⟩ | ⟨-, hpos⟩
      · dsimp only
        exact ⟨by omega, fun _ => hback (hzero ▸ small_of_lt (by decide) rs)⟩
      · omega

/-- **A loop that gives up**: the last `errno` is not one it retries.  Either a call has set it, or
it was there from the start and the first call was the last. -/
theorem writeLoop_gives_up (h : writeLoop buf s results = some out) (hret : out.ret = -1) :
    (∃ e, .failed e ∈ out.calls ∧ e.retry = false) ∨
      (s.errno.retry = false ∧ ∃ n rs, results = .wrote n :: rs ∧
        (n < s.leftNum.toNat ∨ 2 ^ 31 ≤ min n s.leftNum.toNat)) := by
  induction results generalizing s out with
  | nil => exact nomatch h
  | cons r rs ih =>
    rcases writeLoop_cons h with ⟨hagain, out', hout', rfl⟩ | ⟨hagain, rfl⟩
    · -- the loop has gone on, so `errno` is one it retries
      have hretry : (s.call buf r).errno.retry = true := by
        simp only [Writing.again, and_eq_true] at hagain
        exact hagain.2
      rcases ih hout' hret with ⟨e, he, hhard⟩ | ⟨hhard, -⟩
      · exact .inl ⟨e, mem_cons_of_mem _ he, hhard⟩
      · exact absurd (hretry.symm.trans hhard) (by decide)
    · have hmore : 0 < (s.call buf r).leftNum := by
        by_contra hzero
        simp only [Writing.ret, if_neg hzero] at hret
        omega
      have hhard : (s.call buf r).errno.retry = false := by
        simpa [Writing.again, hmore] using hagain
      cases r with
      | failed e => exact .inl ⟨e, by simp, hhard⟩
      | wrote n =>
        have herrno : (s.call buf (.wrote n)).errno = s.errno := by
          simp only [Writing.call]
          split_ifs <;> rfl
        refine .inr ⟨herrno ▸ hhard, n, rs, rfl, ?_⟩
        by_contra hfull
        obtain ⟨hall, hint⟩ := not_or.1 hfull
        -- the whole rest, in a count that fits an `int`
        have hcount : min n s.leftNum.toNat = s.leftNum.toNat :=
          Nat.min_eq_right (Nat.not_lt.1 hall)
        have hleft : (s.call buf (.wrote n)).leftNum.toNat = 0 := by
          simp only [Writing.call, hcount, UInt32.ofNat_toNat]
          split_ifs with hpos
          · simp
          · rw [hcount] at hint
            dsimp only
            omega
        exact absurd (leftNum_pos_iff.1 hmore) (by omega)

theorem writeLoop_ret_lt (h : writeLoop buf s results = some out) :
    out.ret < 2 ^ 32 := by
  induction results generalizing s out with
  | nil => exact nomatch h
  | cons r rs ih =>
    rcases writeLoop_cons h with ⟨-, out', hout', rfl⟩ | ⟨-, rfl⟩
    · exact Int.lt_of_le_of_lt (Int.le_refl out'.ret) (ih hout')
    · have hlt := (s.call buf r).sentNum.toNat_lt
      dsimp only [Writing.ret]
      split_ifs
      · decide
      · omega

theorem writeLoop_staleShort (buf : List UInt8) (results : List WriteResult)
    (hhard : s.errno.retry = false)
    (hshort : n < s.leftNum.toNat ∨ 2 ^ 31 ≤ min n s.leftNum.toNat) :
    ∃ kernel, writeLoop buf s (.wrote n :: results) = some ⟨-1, kernel, [.wrote n]⟩ := by
  have hmore : 0 < (s.call buf (.wrote n)).leftNum := by
    rw [leftNum_pos_iff]
    simp only [Writing.call]
    split_ifs with hcount
    · have hle : UInt32.ofNat (min n s.leftNum.toNat) ≤ s.leftNum := by
        rw [le_iff_toNat_le, toNat_ofNat_min]
        exact Nat.min_le_right ..
      rw [UInt32.toNat_sub_of_le _ _ hle, toNat_ofNat_min]
      omega
    · dsimp only
      omega
  have herrno : (s.call buf (.wrote n)).errno = s.errno := by
    simp only [Writing.call]
    split_ifs <;> rfl
  have hdone : (s.call buf (.wrote n)).again = false := by
    simp [Writing.again, herrno, hhard]
  refine ⟨(s.call buf (.wrote n)).kernel, ?_⟩
  simp only [writeLoop, hdone, false_eq_true, if_false, Writing.ret, if_pos hmore]

end Loop

/-- **What `Connection::write` survives**, for every value of `errno` before it, every buffer and
every sequence of results of `::write`. -/
theorem write_survives_iff (errno : Errno) (buf : List UInt8) (results : List WriteResult)
    (hne : results ≠ []) :
    (Retried results → buf.length ≤ total results →
      ((∃ out, connectionWrite errno buf results = some out ∧ out.kernel = buf ∧
          out.ret = buf.length) ↔
        buf.length < 2 ^ 32 ∧ Small buf.length results ∧ staleShort errno buf results = false)) ∧
    (∀ out, connectionWrite errno buf results = some out →
      ((out.ret = -1 → ∃ e, .failed e ∈ out.calls ∧ e.retry = false) ↔
        staleShort errno buf results = false)) := by
  have hleft : (UInt32.ofNat buf.length).toNat = buf.length % 2 ^ 32 := toNat_ofNat'
  -- a stale `errno` ends the loop at once
  have hstale : staleShort errno buf results = true → ∃ n kernel,
      connectionWrite errno buf results = some ⟨-1, kernel, [.wrote n]⟩ := by
    intro h
    cases results with
    | nil => exact absurd rfl hne
    | cons r rs =>
      cases r with
      | failed e => exact nomatch h
      | wrote n =>
        obtain ⟨hhard, hshort⟩ : errno.retry = false ∧
            (n < buf.length % 2 ^ 32 ∨ 2 ^ 31 ≤ min n (buf.length % 2 ^ 32)) := by
          simpa [staleShort] using h
        obtain ⟨kernel, hk⟩ := writeLoop_staleShort buf rs
          (s := ⟨0, UInt32.ofNat buf.length, errno, []⟩) hhard (hleft ▸ hshort)
        exact ⟨n, kernel, hk⟩
  refine ⟨fun hretried htotal => ⟨?_, ?_⟩, fun out hout => ⟨?_, ?_⟩⟩
  · rintro ⟨out, hout, hkernel, hret⟩
    have hnot : staleShort errno buf results = false := by
      by_contra h
      obtain ⟨n, kernel, hk⟩ := hstale (by simpa using h)
      obtain rfl := some.inj (hout.symm.trans hk)
      dsimp only at hret
      omega
    have hlen : buf.length < 2 ^ 32 := by
      have hlt := writeLoop_ret_lt hout
      omega
    have hleft' : (UInt32.ofNat buf.length).toNat = buf.length :=
      hleft.trans (Nat.mod_eq_of_lt hlen)
    have hsum : (0 : UInt32).toNat + (UInt32.ofNat buf.length).toNat = buf.length := by
      rw [hleft', UInt32.toNat_zero, Nat.zero_add]
    have hsmall := (writeLoop_length hsum hlen hout hret).2 (by simp [hkernel, hleft'])
    rw [hleft'] at hsmall
    exact ⟨hlen, hsmall, hnot⟩
  · rintro ⟨hlen, hsmall, hnot⟩
    have hleft' : (UInt32.ofNat buf.length).toNat = buf.length :=
      hleft.trans (Nat.mod_eq_of_lt hlen)
    have hway : Writing.OnWay buf ⟨0, UInt32.ofNat buf.length, errno, []⟩ :=
      ⟨by rw [hleft', UInt32.toNat_zero, Nat.zero_add], by simp⟩
    refine hway.passes hlen ?_ hretried (Nat.le_trans (Nat.le_of_eq hleft') htotal)
      (by rwa [hleft']) hne
    rintro n rs rfl hshort
    by_contra hhard
    rw [hleft] at hshort
    exact absurd (staleShort_wrote (eq_false_iff.2 hhard) (Or.inl hshort) rs)
      (eq_false_iff.1 hnot)
  · intro h
    by_contra hs
    obtain ⟨n, kernel, hk⟩ := hstale (by simpa using hs)
    obtain rfl := some.inj (hout.symm.trans hk)
    obtain ⟨e, he, -⟩ := h rfl
    simp at he
  · intro h hret
    rcases writeLoop_gives_up hout hret with hfound | ⟨hhard, n, rs, rfl, hshort⟩
    · exact hfound
    · rw [hleft] at hshort
      exact absurd (h.symm.trans (staleShort_wrote hhard hshort rs)) false_ne_true

/-- A failed call, a short write and the rest: the loop has `EAGAIN` in `errno` when it sees the
short write. -/
theorem write_survives_after_eagain :
    (∃ out, connectionWrite (.other 0) [1, 2, 3] [.failed .eagain, .wrote 1, .wrote 2] = some out ∧
      out.kernel = [1, 2, 3] ∧ out.ret = 3) ∧
    ∃ out, connectionWrite .eintr [1, 2, 3] [.wrote 1, .failed (.other 32)] = some out ∧
      out.ret = -1 ∧ ∃ e, .failed e ∈ out.calls ∧ e.retry = false := by
  have hretried : Retried [.failed .eagain, .wrote 1, .wrote 2] := by
    intro e he
    obtain rfl : e = .eagain := by simpa using he
    rfl
  have hfail : connectionWrite .eintr [1, 2, 3] [.wrote 1, .failed (.other 32)] =
      some ⟨-1, [1], [.wrote 1, .failed (.other 32)]⟩ := by decide
  refine ⟨?_, _, hfail, rfl, ?_⟩
  · exact ((write_survives_iff _ _ _ (by simp)).1 hretried (by decide)).2
      ⟨by decide, small_of_lt (by decide) _, by decide⟩
  · exact ((write_survives_iff _ _ _ (by simp)).2 _ hfail).2 (by decide) rfl

/-- **A short write is lost with the `errno` of a call that succeeded long ago**, or of none. -/
theorem short_write_gives_up :
    connectionWrite (.other 0) [1, 2] [.wrote 1, .wrote 1] = some ⟨-1, [1], [.wrote 1]⟩ := by
  decide

end Corpc.Io
