/-
# The calls that a pool works on

A call of `take` that has not ended waits in `waitingList_` or for a connection that is being
opened, and is in one of these places only (`State.Manned`).
-/

import Corpc.Pool.Accounting

namespace Corpc.Pool

open Function List
namespace State

variable {d : Driver} {maxConnectNum : UInt32} {s s' : State} {a : Action}

def calls (s : State) : List ℕ := s.waitingList ++ s.openings.map (·.owner.call)

/-- The calls that wait are running and wait once, and what was delivered is the result of its
call. -/
structure Manned (s : State) : Prop where
  running : ∀ k ∈ s.calls, s.takes k = .running
  nodup : s.calls.Nodup
  delivered : ∀ p ∈ s.delivered, s.takes p.2 = .delivered p.1

theorem calls_unopen {owner : Opener} {o : Opening}
    (ho : s.openings.find? (·.owner = owner) = some o) :
    s.calls.Perm (owner.call :: (s.unopen owner).calls) := by
  obtain ⟨l₁, l₂, hp, hl, herase⟩ := eraseP_of_find? ho
  obtain rfl := of_decide_eq_true hp
  simp only [calls, unopen, herase]
  simp only [hl, map_append, map_cons, ← append_assoc]
  exact perm_middle

variable {k : ℕ}

theorem calls_of_cons {rest : List ℕ} (hw : s.waitingList = k :: rest) :
    s.calls = k :: (rest ++ s.openings.map (·.owner.call)) := by
  rw [calls, hw, cons_append]

namespace Manned

theorem running_of_find? (h : s.Manned) {owner : Opener} {o : Opening}
    (ho : s.openings.find? (·.owner = owner) = some o) : s.takes owner.call = .running :=
  h.running _ ((calls_unopen ho).mem_iff.2 mem_cons_self)

theorem running_of_cons (h : s.Manned) {rest : List ℕ} (hw : s.waitingList = k :: rest) :
    s.takes k = .running :=
  h.running k (by rw [calls_of_cons hw]; exact mem_cons_self)

theorem others (h : s.Manned) {l : List ℕ} (hl : s.calls.Perm (k :: l)) :
    l.Nodup ∧ ∀ j ∈ l, j ≠ k ∧ s.takes j = .running := by
  obtain ⟨hk, hnodup⟩ := nodup_cons.1 (hl.nodup_iff.1 h.nodup)
  refine ⟨hnodup, fun j hj => ⟨?_, h.running j (hl.mem_iff.2 (mem_cons_of_mem _ hj))⟩⟩
  rintro rfl
  exact hk hj

theorem ne_of_delivered (h : s.Manned) {p : ℕ × ℕ} (hp : p ∈ s.delivered)
    (hk : s.takes k = .unstarted ∨ s.takes k = .running) : p.2 ≠ k := by
  rintro rfl
  rw [h.delivered p hp] at hk
  rcases hk with hk | hk <;> cases hk

end Manned

theorem takes_of_move (h : s.Manned) (hm : s.Move d maxConnectNum a s') (j : ℕ) :
    s'.takes j = s.takes j ∨ s.takes j = .running ∨ a = .take j := by
  have hupdate : ∀ k r, s.takes k = .running → update s.takes k r j = s.takes j ∨
      s.takes j = .running ∨ a = .take j := by
    intro k r hk
    by_cases hj : j = k
    · exact .inr (.inl (hj ▸ hk))
    · exact .inl (update_of_ne hj _ _)
  have hbegin : ∀ k r, a = .take k → update s.takes k r j = s.takes j ∨
      s.takes j = .running ∨ a = .take j := by
    intro k r hk
    by_cases hj : j = k
    · exact .inr (.inr (hj ▸ hk))
    · exact .inl (update_of_ne hj _ _)
  cases hm with
  | takeIdle | takeOpen | takeWait => exact hbegin _ _ rfl
  | putPass hy hw hi => exact hupdate _ _ (h.running_of_cons hw)
  | refuse ho hrest hfail hi =>
    by_cases hj : j ∈ s.waitingList
    · exact .inr (.inl (h.running j (mem_append_left _ hj)))
    · simp only [if_neg hj]
      exact hupdate _ _ (h.running_of_find? ho)
  | refuseIdle ho | create ho => exact hupdate _ _ (h.running_of_find? ho)
  | putKeep | putClose | putReopen | goOn | clearIdle | tick n => exact .inl rfl

/-- **A connection is delivered** to a call that was running, or by the action that begins it. -/
theorem delivered_of_move (h : s.Manned) (hm : s.Move d maxConnectNum a s') (p : ℕ × ℕ)
    (hp : p ∈ s'.delivered) : p ∈ s.delivered ∨ s.takes p.2 = .running ∨ a = .take p.2 := by
  have hnew : ∀ l x k, (∀ q ∈ l, q ∈ s.delivered) → p ∈ l ++ [(x, k)] →
      (s.takes k = .running ∨ a = .take k) →
      p ∈ s.delivered ∨ s.takes p.2 = .running ∨ a = .take p.2 := by
    intro l x k hl hp hk
    rcases mem_append.1 hp with hp | hp
    · exact .inl (hl p hp)
    · rw [mem_singleton.1 hp]
      exact .inr hk
  have hunlend : ∀ x, ∀ q ∈ (s.unlend x).delivered, q ∈ s.delivered :=
    fun x q hq => mem_of_mem_eraseP hq
  cases hm with
  | takeIdle => exact hnew _ _ _ (fun _ => id) hp (.inr rfl)
  | putPass hy hw hi => exact hnew _ _ _ (hunlend _) hp (.inl (h.running_of_cons hw))
  | refuseIdle ho | create ho => exact hnew _ _ _ (fun _ => id) hp (.inl (h.running_of_find? ho))
  | putKeep | putClose | putReopen => exact .inl (hunlend _ p hp)
  | takeOpen | takeWait | refuse | goOn | clearIdle | tick n => exact .inl hp

theorem ne_of_put (h : s.Manned) (hacc : s.Accounted maxConnectNum) {x : ℕ} {error : Bool}
    (hm : s.Move d maxConnectNum (.put x error) s') {p : ℕ × ℕ} (hp : p ∈ s.delivered)
    (hp' : p ∈ s'.delivered) : p.1 ≠ x := by
  have hunlend : ∀ {y : ℕ × ℕ}, s.delivered.find? (·.1 = x) = some y →
      p ∈ (s.unlend x).delivered → p.1 ≠ x := by
    rintro y hy hmem rfl
    have hnodup := ((handles_unlend hy).nodup_iff.2 hacc.nodup)
    exact (nodup_cons.1 hnodup).1 (mem_append_right _ (mem_map_of_mem hmem))
  cases hm with
  | putKeep hy hw | putClose hy hw | putReopen hy hw hi => exact hunlend hy hp'
  | putPass hy hw hi =>
    rcases mem_append.1 hp' with hmem | hmem
    · exact hunlend hy hmem
    · -- the new call was running
      rw [mem_singleton.1 hmem] at hp
      exact absurd rfl (h.ne_of_delivered hp (.inr (h.running_of_cons hw)))

namespace Manned

theorem deliver (h : s.Manned) {t : State} {x : ℕ}
    (hk : s.takes k = .unstarted ∨ s.takes k = .running) (htakes : t.takes = s.takes)
    (hdelivered : ∀ p ∈ t.delivered, p ∈ s.delivered) (hnodup : t.calls.Nodup)
    (hrunning : ∀ j ∈ t.calls, j ≠ k ∧ s.takes j = .running) : (t.deliver k x).Manned := by
  refine ⟨fun j hj => ?_, hnodup, fun p hp => ?_⟩
  · obtain ⟨hne, hj⟩ := hrunning j hj
    simpa only [State.deliver, htakes, update_of_ne hne] using hj
  · rcases mem_append.1 hp with hp | hp
    · have hne := h.ne_of_delivered (hdelivered p hp) hk
      simpa only [State.deliver, htakes, update_of_ne hne] using
        h.delivered p (hdelivered p hp)
    · rw [mem_singleton.1 hp]
      exact update_self ..

theorem begins (h : s.Manned) {t : State} (hk : s.takes k = .unstarted)
    (htakes : t.takes = update s.takes k .running) (hdelivered : t.delivered = s.delivered)
    (hcalls : t.calls.Perm (k :: s.calls)) : t.Manned := by
  have hnot : k ∉ s.calls := by
    intro hmem
    rw [h.running k hmem] at hk
    cases hk
  refine ⟨fun j hj => ?_, hcalls.nodup_iff.2 (nodup_cons.2 ⟨hnot, h.nodup⟩), fun p hp => ?_⟩
  · rw [htakes]
    rcases mem_cons.1 (hcalls.mem_iff.1 hj) with rfl | hj
    · exact update_self ..
    · rw [update_of_ne (ne_of_mem_of_not_mem hj hnot)]
      exact h.running j hj
  · rw [hdelivered] at hp
    rw [htakes, update_of_ne (h.ne_of_delivered hp (.inl hk))]
    exact h.delivered p hp

theorem keeps (h : s.Manned) {t : State} (htakes : t.takes = s.takes)
    (hdelivered : ∀ p ∈ t.delivered, p ∈ s.delivered) (hcalls : t.calls.Perm s.calls) :
    t.Manned := by
  refine ⟨fun j hj => ?_, hcalls.nodup_iff.2 h.nodup, fun p hp => ?_⟩
  · rw [htakes]
    exact h.running j (hcalls.mem_iff.1 hj)
  · rw [htakes]
    exact h.delivered p (hdelivered p hp)

theorem move (h : s.Manned) (hm : s.Move d maxConnectNum a s') : s'.Manned := by
  have hunlend : ∀ x, ∀ q ∈ (s.unlend x).delivered, q ∈ s.delivered :=
    fun x q hq => mem_of_mem_eraseP hq
  cases hm with
  | takeIdle hk hi =>
    refine h.deliver (.inl hk) rfl (fun _ => id) h.nodup fun j hj => ⟨?_, h.running j hj⟩
    rintro rfl
    rw [h.running _ hj] at hk
    cases hk
  | takeOpen hk hi hlt =>
    refine h.begins hk rfl rfl ?_
    simp only [calls, map_append, map_cons, map_nil, ← append_assoc]
    exact perm_append_singleton _ _
  | takeWait hk hi hlt =>
    refine h.begins hk rfl rfl ?_
    simp only [calls, append_assoc, singleton_append]
    exact perm_middle
  | putKeep hy hw | putClose hy hw => exact h.keeps rfl (hunlend _) (Perm.refl _)
  | putPass hy hw hi =>
    obtain ⟨hnodup, hrunning⟩ := h.others (by rw [calls_of_cons hw])
    exact h.deliver (.inr (h.running_of_cons hw)) rfl (hunlend _) hnodup hrunning
  | putReopen hy hw hi =>
    refine h.keeps rfl (hunlend _) ?_
    rw [calls_of_cons hw]
    simp only [calls, map_append, map_cons, map_nil, ← append_assoc]
    exact perm_append_singleton _ _
  | refuse ho hrest hfail hi =>
    obtain ⟨hnodup, hrunning⟩ := h.others (calls_unopen ho)
    have hdisjoint := disjoint_of_nodup_append hnodup
    refine ⟨fun j hj => ?_, (nodup_append.1 hnodup).2.1, fun p hp => ?_⟩
    · obtain ⟨hne, hj'⟩ := hrunning j (mem_append_right _ hj)
      have hw : j ∉ s.waitingList := fun hw => hdisjoint hw hj
      simpa only [if_neg hw, update_of_ne hne] using hj'
    · have hw : p.2 ∉ s.waitingList := fun hw =>
        h.ne_of_delivered hp (.inr (h.running _ (mem_append_left _ hw))) rfl
      have hne := h.ne_of_delivered hp (.inr (h.running_of_find? ho))
      simpa only [if_neg hw, update_of_ne hne] using h.delivered p hp
  | refuseIdle ho hrest hfail hw hi | create ho hrest hok =>
    obtain ⟨hnodup, hrunning⟩ := h.others (calls_unopen ho)
    exact h.deliver (.inr (h.running_of_find? ho)) rfl (fun _ => id) hnodup hrunning
  | goOn ho hrest hok hne =>
    refine h.keeps rfl (fun _ => id) (Perm.trans ?_ (calls_unopen ho).symm)
    simp only [calls, map_append, map_cons, map_nil, ← append_assoc]
    exact perm_append_singleton _ _
  | clearIdle | tick n => exact h.keeps rfl (fun _ => id) (Perm.refl _)

end Manned

end State
end Corpc.Pool
