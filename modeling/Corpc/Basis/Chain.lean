/-
# Linked lists in a heap

A heap maps the addresses in use to cells, each with a value and a pointer to the next; null is
`none`.
-/

import Mathlib.Data.List.Nodup
import Mathlib.Logic.Function.Basic

namespace Corpc.Basis

variable {A V : Type*}

structure Cell (A V : Type*) where
  value : V
  next : Option A
  deriving DecidableEq

inductive Chain (heap : A → Option (Cell A V)) : Option A → List (A × V) → Prop
  | nil : Chain heap none []
  | cons {a : A} {v : V} {q : Option A} {cells : List (A × V)} :
      heap a = some ⟨v, q⟩ → Chain heap q cells → Chain heap (some a) ((a, v) :: cells)

def addrs (cells : List (A × V)) : List A := cells.map Prod.fst

def values (cells : List (A × V)) : List V := cells.map Prod.snd

@[simp]
theorem addrs_nil : addrs ([] : List (A × V)) = [] := rfl

@[simp]
theorem addrs_cons (a : A) (v : V) (cells : List (A × V)) :
    addrs ((a, v) :: cells) = a :: addrs cells := rfl

@[simp]
theorem values_nil : values ([] : List (A × V)) = [] := rfl

@[simp]
theorem values_cons (a : A) (v : V) (cells : List (A × V)) :
    values ((a, v) :: cells) = v :: values cells := rfl

section

variable {heap : A → Option (Cell A V)} {p : Option A} {cells cells' : List (A × V)} {a : A}

theorem chain_none : Chain heap none cells ↔ cells = [] := by
  constructor
  · rintro ⟨⟩
    rfl
  · rintro rfl
    exact .nil

theorem chain_some :
    Chain heap (some a) cells ↔
      ∃ v q rest, heap a = some ⟨v, q⟩ ∧ cells = (a, v) :: rest ∧ Chain heap q rest := by
  constructor
  · rintro (_ | ⟨ha, hq⟩)
    exact ⟨_, _, _, ha, rfl, hq⟩
  · rintro ⟨v, q, rest, ha, rfl, hq⟩
    exact .cons ha hq

theorem Chain.heap_ne_none (h : Chain heap p cells) (ha : a ∈ addrs cells) : heap a ≠ none := by
  induction h with
  | nil => exact absurd ha List.not_mem_nil
  | cons hb _ ih =>
    rcases List.mem_cons.1 ha with rfl | ha
    · rw [hb]
      nofun
    · exact ih ha

theorem Chain.update [DecidableEq A] (h : Chain heap p cells) (ha : a ∉ addrs cells)
    (cell : Option (Cell A V)) : Chain (Function.update heap a cell) p cells := by
  induction h with
  | nil => exact .nil
  | cons hb _ ih =>
    obtain ⟨hne, hrest⟩ := List.ne_and_not_mem_of_not_mem_cons ha
    exact .cons (by rw [Function.update_of_ne hne.symm, hb]) (ih hrest)

end

end Corpc.Basis
