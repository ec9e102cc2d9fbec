/-
# Doubly linked lists

`Linked next prev l` says that the positions of `l` are linked to each other in this order, both
ways; `next a = none` where there is no node, or a null pointer.
-/

import Mathlib.Data.List.Chain
import Mathlib.Data.List.Nodup

namespace Corpc.Basis

open List

variable {P : Type*}

def Linked (next prev : P → Option P) (l : List P) : Prop :=
  l.IsChain fun a b => next a = some b ∧ prev b = some a

section

variable {next prev next' prev' : P → Option P} {l l₁ l₂ m n : List P} {a b : P}

theorem linked_pair : Linked next prev [a, b] ↔ next a = some b ∧ prev b = some a := by
  simp [Linked]

theorem linked_cons_cons :
    Linked next prev (a :: b :: l) ↔
      (next a = some b ∧ prev b = some a) ∧ Linked next prev (b :: l) :=
  isChain_cons_cons

theorem linked_split :
    Linked next prev (l₁ ++ a :: l₂) ↔ Linked next prev (l₁ ++ [a]) ∧ Linked next prev (a :: l₂) :=
  isChain_split

theorem Linked.neighbours (h : Linked next prev (l₁ ++ a :: b :: l₂)) :
    next a = some b ∧ prev b = some a :=
  (linked_cons_cons.1 (linked_split.1 h).2).1

theorem Linked.congr (h : Linked next prev l) (hnext : ∀ p ∈ l.dropLast, next' p = next p)
    (hprev : ∀ p ∈ l.tail, prev' p = prev p) : Linked next' prev' l := by
  induction l with
  | nil => exact isChain_nil
  | cons a l ih =>
    cases l with
    | nil => exact isChain_singleton a
    | cons b l =>
      obtain ⟨⟨hn, hp⟩, hrest⟩ := linked_cons_cons.1 h
      refine linked_cons_cons.2 ⟨⟨?_, ?_⟩, ih hrest (fun p hp => ?_) fun p hp => ?_⟩
      · rw [hnext a (by simp), hn]
      · rw [hprev b (by simp), hp]
      · exact hnext p (by simpa using .inr hp)
      · exact hprev p (mem_cons_of_mem b hp)

/-- **A part between two positions is replaced.** -/
theorem Linked.splice (h : Linked next prev (l₁ ++ a :: (m ++ b :: l₂)))
    (hn : Linked next' prev' (a :: (n ++ [b])))
    (hnext₁ : ∀ p ∈ l₁, next' p = next p) (hnext₂ : ∀ p ∈ (b :: l₂).dropLast, next' p = next p)
    (hprev₁ : ∀ p ∈ (l₁ ++ [a]).tail, prev' p = prev p) (hprev₂ : ∀ p ∈ l₂, prev' p = prev p) :
    Linked next' prev' (l₁ ++ a :: (n ++ b :: l₂)) := by
  obtain ⟨hfirst, hrest⟩ := linked_split.1 h
  rw [← cons_append] at hrest
  have hlast : Linked next prev (b :: l₂) := (linked_split.1 hrest).2
  refine linked_split.2 ⟨hfirst.congr (fun p hp => hnext₁ p ?_) hprev₁, ?_⟩
  · simpa using hp
  · rw [← cons_append]
    exact linked_split.2 ⟨hn, hlast.congr hnext₂ hprev₂⟩

theorem dropLast_append_cons (l₁ l₂ : List P) (a b : P) :
    (l₁ ++ a :: (m ++ b :: l₂)).dropLast = l₁ ++ a :: (m ++ (b :: l₂).dropLast) := by
  rw [dropLast_append_of_ne_nil (cons_ne_nil a _), ← cons_append,
    dropLast_append_of_ne_nil (cons_ne_nil b _), cons_append]

theorem tail_append_cons (l₁ l₂ : List P) (a : P) :
    (l₁ ++ a :: l₂).tail = (l₁ ++ [a]).tail ++ l₂ := by
  cases l₁ with
  | nil => rfl
  | cons x l₁ => simp

/-- **What is between two positions is replaced by new nodes.**  The pointers of the two and of
the nodes that come and go are written. -/
theorem Linked.patch (h : Linked next prev (l₁ ++ a :: (m ++ b :: l₂)))
    (hsrc : (l₁ ++ a :: (m ++ b :: l₂)).dropLast.Nodup)
    (htgt : (l₁ ++ a :: (m ++ b :: l₂)).tail.Nodup)
    (hnew : ∀ c ∈ n, c ∉ l₁ ++ a :: (m ++ b :: l₂)) (hn : Linked next' prev' (a :: (n ++ [b])))
    (hnext : ∀ x, x ≠ a → x ∉ m → x ∉ n → next' x = next x)
    (hprev : ∀ x, x ≠ b → x ∉ m → x ∉ n → prev' x = prev x) :
    Linked next' prev' (l₁ ++ a :: (n ++ b :: l₂)) := by
  rw [dropLast_append_cons] at hsrc
  rw [tail_append_cons] at htgt
  obtain ⟨-, hsrc₂, hsrc⟩ := nodup_append.1 hsrc
  obtain ⟨-, htgt₂, htgt⟩ := nodup_append.1 htgt
  obtain ⟨ha, hsrc₂⟩ := nodup_cons.1 hsrc₂
  obtain ⟨-, -, hsrc₂⟩ := nodup_append.1 hsrc₂
  obtain ⟨-, htgt₃, htgt₂⟩ := nodup_append.1 htgt₂
  have hold : ∀ p ∈ l₁ ++ a :: (m ++ b :: l₂), p ∉ n := fun p hp hpn => hnew p hpn hp
  refine h.splice hn (fun p hp => ?_) (fun p hp => ?_) (fun p hp => ?_) fun p hp => ?_
  · exact hnext p (hsrc p hp a (by simp)) (fun hpm => hsrc p hp p (by simp [hpm]) rfl)
      (hold p (by simp [hp]))
  · refine hnext p ?_ (fun hpm => hsrc₂ p hpm p hp rfl)
      (hold p (by simp [dropLast_subset _ hp]))
    rintro rfl
    exact ha (mem_append_right m hp)
  · have hmem : p ∈ l₁ ++ [a] := mem_of_mem_tail hp
    refine hprev p (htgt p hp b (by simp)) (fun hpm => htgt p hp p (by simp [hpm]) rfl) (hold p ?_)
    simpa using (mem_append.1 hmem).imp id fun h => Or.inl (mem_singleton.1 h)
  · refine hprev p ?_ (fun hpm => htgt₂ p hpm p (by simp [hp]) rfl) (hold p (by simp [hp]))
    rintro rfl
    exact (nodup_cons.1 htgt₃).1 hp

variable [DecidableEq P] {c : P}

/-- **A node is inserted between two neighbours.** -/
theorem Linked.insert (h : Linked next prev (l₁ ++ a :: b :: l₂))
    (hsrc : (l₁ ++ a :: b :: l₂).dropLast.Nodup) (htgt : (l₁ ++ a :: b :: l₂).tail.Nodup)
    (hc : c ∉ l₁ ++ a :: b :: l₂)
    (hnext : ∀ x, next' x = if x = c then some b else if x = a then some c else next x)
    (hprev : ∀ x, prev' x = if x = c then some a else if x = b then some c else prev x) :
    Linked next' prev' (l₁ ++ a :: c :: b :: l₂) := by
  have hac : a ≠ c := fun heq => hc (by simp [heq])
  have hbc : b ≠ c := fun heq => hc (by simp [heq])
  refine Linked.patch (m := []) (n := [c]) h hsrc htgt (by simpa using hc) ?_
    (fun x hxa _ hxc => ?_) fun x hxb _ hxc => ?_
  · refine linked_cons_cons.2 ⟨⟨?_, ?_⟩, linked_pair.2 ⟨?_, ?_⟩⟩
    · rw [hnext, if_neg hac, if_pos rfl]
    · rw [hprev, if_pos rfl]
    · rw [hnext, if_pos rfl]
    · rw [hprev, if_neg hbc, if_pos rfl]
  · rw [hnext, if_neg (by simpa using hxc), if_neg hxa]
  · rw [hprev, if_neg (by simpa using hxc), if_neg hxb]

/-- **A node is unlinked**, by writing the pointers of its neighbours. -/
theorem Linked.unlink (h : Linked next prev (l₁ ++ c :: l₂)) (h₁ : l₁ ≠ []) (h₂ : l₂ ≠ [])
    (hsrc : (l₁ ++ c :: l₂).dropLast.Nodup) (htgt : (l₁ ++ c :: l₂).tail.Nodup) :
    ∃ a ∈ l₁, ∃ b ∈ l₂, (a ≠ c ∧ b ≠ c) ∧ (next a = some c ∧ prev c = some a) ∧
      (next c = some b ∧ prev b = some c) ∧ ∀ next' prev' : P → Option P,
        (∀ x, x ≠ c → next' x = if x = a then some b else next x) →
        (∀ x, x ≠ c → prev' x = if x = b then some a else prev x) →
        Linked next' prev' (l₁ ++ l₂) := by
  obtain ⟨init, a, rfl⟩ : ∃ init a, l₁ = init ++ [a] :=
    ⟨_, _, (dropLast_append_getLast h₁).symm⟩
  obtain ⟨b, rest, rfl⟩ := exists_cons_of_ne_nil h₂
  rw [append_assoc, singleton_append] at h hsrc htgt
  obtain ⟨hpair, hrest⟩ := linked_cons_cons.1 (linked_split.1 h).2
  have hsrc' := dropLast_append_cons (m := [c]) init rest a b ▸ hsrc
  have htgt' := tail_append_cons init (c :: b :: rest) a ▸ htgt
  have hac : a ≠ c := fun heq =>
    (nodup_cons.1 (nodup_append.1 hsrc').2.1).1 (by simp [heq])
  have hbc : b ≠ c := fun heq =>
    (nodup_cons.1 (nodup_append.1 htgt').2.1).1 (by simp [heq])
  refine ⟨a, by simp, b, by simp, ⟨hac, hbc⟩, hpair, (linked_cons_cons.1 hrest).1,
    fun next' prev' hnext hprev => ?_⟩
  rw [append_assoc, singleton_append]
  refine Linked.patch (m := [c]) (n := []) h hsrc htgt nofun (linked_pair.2 ⟨?_, ?_⟩)
    (fun x hxa hxc _ => ?_) fun x hxb hxc _ => ?_
  · rw [hnext a hac, if_pos rfl]
  · rw [hprev b hbc, if_pos rfl]
  · rw [hnext x (by simpa using hxc), if_neg hxa]
  · rw [hprev x (by simpa using hxc), if_neg hxb]

end

end Corpc.Basis
