/-
# Straight-line programs over memory areas

A program that only moves bytes between a few objects is a list of writes.  A
write has one destination, and the frame rule `exec_of_forall_ne` is that areas which
no write has as its destination keep their contents.  `splice` is a copy into the
middle of an object.
-/

import Mathlib.Data.List.Basic
import Mathlib.Logic.Function.Basic

namespace Corpc.Basis

open List

/-- `bytes` copied over `l` from offset `o` on. -/
def splice {β : Type} (l : List β) (o : ℕ) (bytes : List β) : List β :=
  l.take o ++ bytes ++ l.drop (o + bytes.length)

section Splice

variable {β : Type} {l bytes bytes' : List β} {o : ℕ}

@[simp]
theorem splice_nil (l : List β) (o : ℕ) : splice l o [] = l := by
  simp [splice]

@[simp]
theorem splice_zero_self (h : bytes.length = l.length) : splice l 0 bytes = bytes := by
  simp [splice, List.drop_eq_nil_of_le (Nat.le_of_eq h.symm)]

theorem take_splice_of_le {n : ℕ} (hn : n ≤ o) (h : o ≤ l.length) :
    (splice l o bytes).take n = l.take n := by
  have hlen : n ≤ (l.take o).length := by
    rw [length_take]
    omega
  rw [splice, append_assoc, take_append_of_le_length hlen, take_take, Nat.min_eq_left hn]

theorem drop_splice_of_le {n : ℕ} (hn : o + bytes.length ≤ n) (h : o ≤ l.length) :
    (splice l o bytes).drop n = l.drop n := by
  have hlen : (l.take o ++ bytes).length = o + bytes.length := by
    simp only [length_append, length_take]
    omega
  rw [splice, drop_append, hlen, drop_eq_nil_of_le (by omega), nil_append, drop_drop]
  congr 1
  omega

theorem slice_splice (h : o ≤ l.length) :
    ((splice l o bytes).drop o).take bytes.length = bytes := by
  have hlen : (l.take o).length = o := by
    rw [length_take]
    omega
  rw [splice, append_assoc, drop_left' hlen, take_left' rfl]

theorem splice_splice (hlen : bytes'.length = bytes.length) (h : o ≤ l.length) :
    splice (splice l o bytes) o bytes' = splice l o bytes' := by
  conv_lhs => rw [splice]
  rw [take_splice_of_le (Nat.le_refl o) h, drop_splice_of_le (by omega) h]
  rfl

theorem take_splice_head {head : List β} (hhead : head.length = o) (h : o ≤ l.length) :
    (splice (splice l o bytes) 0 head).take (o + bytes.length) = head ++ bytes := by
  have hlen : (l.take o).length = o := by
    rw [length_take]
    omega
  have hdrop : (splice l o bytes).drop o = bytes ++ l.drop (o + bytes.length) := by
    rw [splice, append_assoc, drop_left' hlen]
  have hcut : (head ++ bytes).length = o + bytes.length := by
    rw [length_append, hhead]
  rw [splice, List.take_zero, List.nil_append, Nat.zero_add, hhead, hdrop, ← List.append_assoc]
  exact List.take_left' hcut

end Splice

/-- A write to the area `dst`, of a value that depends on the memory. -/
structure Write (α β : Type) where
  dst : α
  value : (α → List β) → List β

variable {α β : Type} [DecidableEq α]

def Write.run (w : Write α β) (mem : α → List β) : α → List β :=
  Function.update mem w.dst (w.value mem)

def exec (ws : List (Write α β)) (mem : α → List β) : α → List β :=
  ws.foldl (fun mem w => w.run mem) mem

@[simp]
theorem exec_nil (mem : α → List β) : exec [] mem = mem := rfl

@[simp]
theorem exec_cons (w : Write α β) (ws : List (Write α β)) (mem : α → List β) :
    exec (w :: ws) mem = exec ws (w.run mem) := rfl

theorem exec_append (ws ws' : List (Write α β)) (mem : α → List β) :
    exec (ws ++ ws') mem = exec ws' (exec ws mem) :=
  foldl_append ..

/-- **The frame rule.**  An area that no write goes to is as before. -/
theorem exec_of_forall_ne {ws : List (Write α β)} {a : α} (h : ∀ w ∈ ws, w.dst ≠ a)
    (mem : α → List β) : exec ws mem a = mem a := by
  induction ws generalizing mem with
  | nil => rfl
  | cons w ws ih =>
    rw [exec_cons, ih fun x hx => h x (mem_cons_of_mem w hx)]
    exact Function.update_of_ne (h w (by simp)).symm _ _

end Corpc.Basis
