/-
# Big-endian integers in a byte string

`beBytes n x` is the `n`-byte big-endian form of `x`, most significant byte
first, and `beVal` reads such a form back.  A field of a record is read by
`field`: the integer in the `n` bytes from offset `o` on.
-/

import Mathlib.Data.List.Basic
import Mathlib.Tactic.Ring
import Mathlib.Tactic.Linarith

namespace Corpc.Basis

/-- The `n` bytes of `x` modulo `256 ^ n`, most significant first. -/
def beBytes : ℕ → ℕ → List UInt8
  | 0, _ => []
  | n + 1, x => beBytes n (x / 256) ++ [UInt8.ofNat x]

def beVal (bytes : List UInt8) : ℕ :=
  bytes.foldl (fun v b => 256 * v + b.toNat) 0

/-- The integer in the `n` bytes from offset `o` on. -/
def field (bytes : List UInt8) (o n : ℕ) : ℕ := beVal ((bytes.drop o).take n)

@[simp]
theorem length_beBytes (n x : ℕ) : (beBytes n x).length = n := by
  induction n generalizing x with
  | zero => rfl
  | succ n ih => simp [beBytes, ih]

theorem beVal_append_singleton (bytes : List UInt8) (b : UInt8) :
    beVal (bytes ++ [b]) = 256 * beVal bytes + b.toNat := by
  simp [beVal]

theorem beVal_beBytes (n x : ℕ) : beVal (beBytes n x) = x % 256 ^ n := by
  induction n generalizing x with
  | zero => simp [beBytes, beVal, Nat.mod_one]
  | succ n ih =>
    rw [beBytes, beVal_append_singleton, ih, pow_succ', Nat.mod_mul]
    simp [add_comm]

theorem field_append_right {pre rest : List UInt8} {o n : ℕ} (h : pre.length ≤ o) :
    field (pre ++ rest) o n = field rest (o - pre.length) n := by
  simp [field, List.drop_append, List.drop_eq_nil_of_le h]

theorem field_append_of_le {pre rest : List UInt8} {o n : ℕ} (h : o + n ≤ pre.length) :
    field (pre ++ rest) o n = field pre o n := by
  unfold field
  rw [List.drop_append_of_le_length (by omega), List.take_append_of_le_length (by simp; omega)]

theorem field_append_left {bytes post : List UInt8} {n : ℕ} (h : bytes.length = n) :
    field (bytes ++ post) 0 n = beVal bytes := by
  simp [field, ← h]

theorem field_eq_beVal {bytes : List UInt8} {n : ℕ} (h : bytes.length = n) :
    field bytes 0 n = beVal bytes := by
  simp [field, ← h]

end Corpc.Basis
